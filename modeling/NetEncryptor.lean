import NetEncryptor.Base.CStrings
import NetEncryptor.Base.Notified
import NetEncryptor.Base.Pairing
import NetEncryptor.Base.RingBuffer
import NetEncryptor.Base.SharedRing
import NetEncryptor.Base.Sweep
import NetEncryptor.Core.ActiveProfiles
import NetEncryptor.Core.ArpCache
import NetEncryptor.Core.ByteAccounting
import NetEncryptor.Core.Config
import NetEncryptor.Core.ConfigSlots
import NetEncryptor.Core.Daemon
import NetEncryptor.Core.FlowEntries
import NetEncryptor.Core.FragTable
import NetEncryptor.Core.Fragment
import NetEncryptor.Core.FragmentCapacity
import NetEncryptor.Core.FragmentLengths
import NetEncryptor.Core.GarbageCollection
import NetEncryptor.Core.Grace
import NetEncryptor.Core.LayerDispatch
import NetEncryptor.Core.NonceUniqueness
import NetEncryptor.Core.Notifications
import NetEncryptor.Core.Peers
import NetEncryptor.Core.PolicyPins
import NetEncryptor.Core.PolicySelection
import NetEncryptor.Core.QueueThreads
import NetEncryptor.Core.Reassembly
import NetEncryptor.Core.Recognition
import NetEncryptor.Core.Reload
import NetEncryptor.Core.RuntimeTables
import NetEncryptor.Core.SplitRoundTrip
import NetEncryptor.Core.Umem
import NetEncryptor.Core.Gateways
import NetEncryptor.Core.WanFilter
import NetEncryptor.Core.WanQueue
import NetEncryptor.Core.WanRoundRobin
import NetEncryptor.Core.WanSlots
import NetEncryptor.Core.XskTx
import NetEncryptor.Core.Worker
import NetEncryptor.Core.WorkerJob
import NetEncryptor.Core.WorkerRing
import NetEncryptor.Crypto.Authentication
import NetEncryptor.Crypto.AutoDecrypt
import NetEncryptor.Crypto.Checksums
import NetEncryptor.Crypto.DecoderBounds
import NetEncryptor.Crypto.DecoderResults
import NetEncryptor.Crypto.Dispatch
import NetEncryptor.Crypto.Encoders
import NetEncryptor.Crypto.GcmCache
import NetEncryptor.Crypto.GraceFallback
import NetEncryptor.Crypto.Layer2
import NetEncryptor.Crypto.Layer2Fragment
import NetEncryptor.Crypto.Layer2RoundTrip
import NetEncryptor.Crypto.Layer3RoundTrip
import NetEncryptor.Crypto.Layer4
import NetEncryptor.Crypto.Layer4Fragment
import NetEncryptor.Crypto.Layer4RoundTrip
import NetEncryptor.Crypto.OverwritingCipher
import NetEncryptor.Db.AddressLists
import NetEncryptor.Db.Cidr
import NetEncryptor.Db.KeyWireIds
import NetEncryptor.Db.MergeProfiles
import NetEncryptor.Db.Rules
import NetEncryptor.Db.WireId
import NetEncryptor.Core.FlowWans
import NetEncryptor.Core.LanFilter
import NetEncryptor.Crypto.SelfConsistent
