import Xv6Net.Fs.Theorems
import Xv6Net.Kernel.Theorems
import Xv6Net.Net.Theorems
import Xv6Net.Proc.Theorems
import Xv6Net.Sched.Lemmas.Agree
import Xv6Net.Sched.Theorems
import Xv6Net.Sys.Theorems
import Xv6Net.User.Lemmas.Join
import Xv6Net.User.Theorems
import Xv6Net.Virtio.Theorems
import Xv6Net.Vm.Theorems
