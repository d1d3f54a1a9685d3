import Csf.BigInt.Hexadecimal
import Csf.BigInt.Shift
import Csf.BigInt.Signs
import Csf.Csim.Competitive
import Csf.Csim.Documented
import Csf.Csim.Inclusion
import Csf.Csim.Independence
import Csf.Csim.Limits
import Csf.Csim.TraceFile
import Csf.Csim.WritePolicy
import Csf.Drawing.Asm.Driver
import Csf.Drawing.PngFile
import Csf.ParSort.Main
import Csf.Server.Atomicity
import Csf.Server.Clients
import Csf.Server.Discipline
import Csf.Server.Progress
import Csf.Server.Versions
