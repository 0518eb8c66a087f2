import Clib4.Foundation.Block
import Clib4.Foundation.Splice
import Clib4.Foundation.ByteFile
import Clib4.Foundation.Segment
import Clib4.Foundation.Exchange
import Clib4.Foundation.MachineInt
import Clib4.Foundation.ModifyFirst
import Clib4.Foundation.Chain
import Clib4.Foundation.Separated
import Clib4.Foundation.TreeWalk
import Clib4.Foundation.Calendar
import Clib4.Foundation.Run
import Clib4.Foundation.Monitor
import Clib4.Foundation.LinkedList
import Clib4.Foundation.LongestMatch
import Clib4.Foundation.CharStream
import Clib4.Time.BrokenDown
import Clib4.Time.Cycles
import Clib4.Time.Conversion
import Clib4.Time.RoundTrip
import Clib4.Time.Sleep
import Clib4.Time.ZoneText
import Clib4.Time.Strftime
import Clib4.Time.Strptime
import Clib4.Time.Numerals
import Clib4.Time.FormatReading
import Clib4.Time.FormatAgreement
import Clib4.Time.FormatRoundTrip
import Clib4.Time.Itimer
import Clib4.Posix.Semop
import Clib4.Posix.MessageCalls
import Clib4.Posix.Vectors
import Clib4.Posix.MessageQueue
import Clib4.Pthread.Barrier
import Clib4.Pthread.BarrierCounter
import Clib4.Pthread.BarrierRounds
import Clib4.Pthread.Condition
import Clib4.Pthread.Once
import Clib4.Stdio.Iob
import Clib4.Stdio.Input
import Clib4.Stdio.Output
import Clib4.Stdio.Medium
import Clib4.Stdio.BlockOutput
import Clib4.Stdio.Accounting
import Clib4.Stdio.Position
import Clib4.Stdio.Descriptor
import Clib4.Stdio.Reading
import Clib4.Stdio.Writing
import Clib4.Stdio.Simulation
import Clib4.Stdio.Refinement
import Clib4.Stdio.WriteAfterSeek
import Clib4.Stdio.Printf.Format
import Clib4.Stdio.Printf.Convert
import Clib4.Stdio.Printf.Core
import Clib4.Stdio.Counters.Input
import Clib4.Stdio.Counters.Output
import Clib4.Stdio.Counters.Run
import Clib4.Stdio.Unbuffered
import Clib4.Stdio.Bytewise
import Clib4.Stdio.ShortReads
import Clib4.Stdio.BlockInput
import Clib4.Stdio.Window
import Clib4.Stdio.PushBack
import Clib4.Stdio.SeekAfterPushBack
import Clib4.Stdio.LittleEndian
import Clib4.Stdio.Getdelim
import Clib4.Stdio.OpenIob
import Clib4.Stdio.Rename
import Clib4.Stdio.FdHook
import Clib4.Stdio.Printf.WideField
import Clib4.Stdio.Printf.Delivery
import Clib4.Stdio.Printf.IntegerField
import Clib4.Stdlib.Qsort
import Clib4.Stdlib.QsortRound
import Clib4.Stdlib.QsortSorting
import Clib4.Stdlib.QsortResult
import Clib4.Stdlib.Bsearch
import Clib4.Stdlib.Strtol
import Clib4.Stdlib.StrtolExact
import Clib4.Stdlib.StrtolEnd
import Clib4.Stdlib.NumberPrefix
import Clib4.Stdio.Scanf.Format
import Clib4.Stdio.Scanf.Convert
import Clib4.Stdio.Scanf.Vfscanf
import Clib4.Stdio.Scanf.Counting
import Clib4.Stdio.Scanf.Keyword
import Clib4.Stdio.Scanf.Rounds
import Clib4.Stdio.Scanf.StoredCount
import Clib4.Stdio.Scanf.Percent
import Clib4.Stdio.Scanf.IntegerReading
import Clib4.Stdio.Scanf.IntegerItem
import Clib4.Stdio.Locking.Handler
import Clib4.Stdio.Locking.Table
import Clib4.Stdio.Locking.Range
import Clib4.Stdio.Locking.Unlock
import Clib4.Stdio.Locking.Getlk
import Clib4.Unistd.DescriptorTable
import Clib4.Unistd.Aliases
import Clib4.Unistd.DescriptorRun
import Clib4.Unistd.CloseOnExec
import Clib4.Unistd.FdTableGrowth
import Clib4.Unistd.PathNames
import Clib4.Unistd.PathPasses
import Clib4.Unistd.PathWalk
import Clib4.Unistd.GetoptLong
import Clib4.Unistd.WildcardQuote
import Clib4.Unistd.PathRoundTrip
import Clib4.Unistd.Ftruncate
import Clib4.Stdlib.Arguments
import Clib4.Stdlib.ArgumentsRoundTrip
import Clib4.Stdlib.Environment
import Clib4.Search.Tree
import Clib4.Stdio.Printf.ReadBack
