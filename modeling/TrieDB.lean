import TrieDB.Library.Run
import TrieDB.Library.KeyMap
import TrieDB.Library.SlotHeap
import TrieDB.Library.BigEndian
import TrieDB.Library.LinkedHeap
import TrieDB.Bst
import TrieDB.BstOrder
import TrieDB.Util
import TrieDB.Vector
import TrieDB.VectorSlots
import TrieDB.VectorSort
import TrieDB.ListMergeSort
import TrieDB.LinkedList
import TrieDB.Trie
import TrieDB.TrieMap
import TrieDB.TrieEntries
import TrieDB.TriePrefix
import TrieDB.TrieSize
import TrieDB.Pack
import TrieDB.Protocol
import TrieDB.Decode
import TrieDB.Network
import TrieDB.Hashtable
import TrieDB.HashtableRehash
import TrieDB.HashtableLookup
import TrieDB.Cluster
import TrieDB.Db
import TrieDB.PrefixUpdate
import TrieDB.Server
import TrieDB.IntegerUpdate
import TrieDB.Expiry
import TrieDB.Get
import TrieDB.Store
import TrieDB.Ownership
import TrieDB.Replies
import TrieDB.KvStore
import TrieDB.Clients
import TrieDB.ExpirySweep
import TrieDB.Config
