import SystemDesign.Python.Runtime
import SystemDesign.Python.Hashlib
import SystemDesign.BloomFilter.Filter
import SystemDesign.BloomFilter.DoubleHashing
import SystemDesign.BloomFilter.Run
import SystemDesign.BloomFilter.Ledger
import SystemDesign.BloomFilter.Refinement
import SystemDesign.BloomFilter.History
import SystemDesign.BloomFilter.Guarantees
import SystemDesign.BloomFilter.Items
import SystemDesign.BloomFilter.Optimal
