import QudoSSL.Posix.Text
import QudoSSL.Posix.Grep
import QudoSSL.Posix.Shell
import QudoSSL.Posix.FileSystem
import QudoSSL.Posix.Tree
import QudoSSL.Posix.Checked
import QudoSSL.Posix.Recipe
import QudoSSL.Posix.Sort
import QudoSSL.Python.Values
import QudoSSL.Python.Dict
import QudoSSL.Python.Printed
import QudoSSL.Conc.Threads
import QudoSSL.Cpp.View
import QudoSSL.Cpp.Integers
import QudoSSL.Cpp.Chain
import QudoSSL.Stats.Sample
import QudoSSL.Wrapper
import QudoSSL.SelfExec
import QudoSSL.Pristine
import QudoSSL.Makefile
import QudoSSL.MakeRuns
import QudoSSL.FipsInstall
import QudoSSL.Reconfigure
import QudoSSL.Dist
import QudoSSL.DistVerify
import QudoSSL.Release
import QudoSSL.Bench.Newest
import QudoSSL.Bench.Trees
import QudoSSL.Bench.Analyze
import QudoSSL.Bench.Verdict
import QudoSSL.Bench.Tables
import QudoSSL.Bench.Direction
import QudoSSL.Bench.Run
import QudoSSL.Bench.Robust
import QudoSSL.Bench.Report
import QudoSSL.Perf.Connection
import QudoSSL.Perf.ConnectionRuns
import QudoSSL.Perf.ConnectionLiveness
import QudoSSL.Perf.Handshake
import QudoSSL.Perf.Clock
import QudoSSL.Perf.SafeMath
import QudoSSL.Perf.ElementList
import QudoSSL.Bench.Instructions
import QudoSSL.Bench.Memory
import QudoSSL.Bench.Conn
