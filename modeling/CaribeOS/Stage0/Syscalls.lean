import CaribeOS.Stage0.UserMemory

/-!
# The system calls of stage0

`xnu_stage0_user_trap_dispatch` (`kernel_xnu_entry.c`) handles every trap from user mode. It prints
what it does on the console, reads and writes the caller's memory through the addresses in the
argument registers, and returns with a result in `a0`, behind the `ecall`.

The source is one chain of tests of the number in `a7`. Here every branch is a program of its own and
the chain is the table `syscalls`. The kernel's own variables are a record beside the memory; so the
model speaks of a kernel whose variables have not been overwritten through a system call.
-/

namespace CaribeOS

open ByteMemory ByteProgram
open Prog hiding ret

/-! ## State -/

/-- What the dispatcher reads of `g_info`. -/
structure Stage0Info where
  timebaseHz : UInt32
  kernelSize : UInt32

/-- The kernel's variables: the `g_stage0_` variables that the dispatcher reads or writes. -/
structure Stage0 where
  umodeSyscalls : UInt32
  umodeWrites : UInt32
  umodeExits : UInt32
  umodeLastSyscall : UInt32
  lastScause : UInt32
  lastSepc : UInt32
  lastStval : UInt32
  procOpen : UInt32
  procOffset : UInt32
  procFile : UInt32
  procDirOpen : UInt32
  procDirOffset : UInt32
  mmapNext : UInt32
  umask : UInt32

/-- The variables when user mode is entered, with what traps of the kernel left behind. -/
def Stage0.initial (lastScause lastSepc lastStval : UInt32) : Stage0 where
  umodeSyscalls := 0
  umodeWrites := 0
  umodeExits := 0
  umodeLastSyscall := 0
  lastScause
  lastSepc
  lastStval
  procOpen := 0
  procOffset := 0
  procFile := 0
  procDirOpen := 0
  procDirOffset := 0
  mmapNext := 0x81004000
  umask := 0o22

/-- The fields of `xnu_stage0_user_frame_t` that the dispatcher reads or writes. -/
structure UserFrame where
  a0 : UInt32
  a1 : UInt32
  a2 : UInt32
  a3 : UInt32
  a4 : UInt32
  a7 : UInt32
  sepc : UInt32
  scause : UInt32
  stval : UInt32

/-- Return behind the `ecall` with a result. -/
def UserFrame.ret (f : UserFrame) (r : UInt32) : UserFrame := { f with a0 := r, sepc := f.sepc + 4 }

/-- One branch of the dispatcher, for a value of the time counter. The frame is `none` when the hart
has been parked in a `wfi` loop. -/
abbrev Handler := Stage0Info → UInt64 → Stage0 → UserFrame → Prog (Stage0 × Option UserFrame)

def xnuStage0LinuxPid : UInt32 := 42
def xnuStage0LinuxPpid : UInt32 := 1
def xnuStage0LinuxUid : UInt32 := 0
def xnuStage0LinuxGid : UInt32 := 0
def xnuStage0LinuxBrk : UInt32 := 0x81003000
def xnuStage0MmapBase : UInt32 := 0x81004000
def xnuStage0MmapLimit : UInt32 := 0x81400000
def xnuStage0UserBase : UInt32 := 0x81000000
def xnuStage0UserRegionSize : UInt32 := 0x00400000
def xnuStage0ProcFd : UInt32 := 3
def xnuStage0ProcDirFd : UInt32 := 4
def linuxAtFdcwd : UInt32 := 0xffffff9c
def linuxEnoent : UInt32 := 2
def linuxEbadf : UInt32 := 9
def linuxEagain : UInt32 := 11
def linuxEnomem : UInt32 := 12
def linuxEfault : UInt32 := 14
def linuxEinval : UInt32 := 22
def linuxErange : UInt32 := 34

def linuxUserRange (addr len : UInt32) : Bool :=
  if addr < xnuStage0UserBase ∨ xnuStage0UserRegionSize < len then false
  else addr ≤ xnuStage0UserBase + xnuStage0UserRegionSize - len

/-- Seconds and nanoseconds. -/
def linuxTimeNow (info : Stage0Info) (time : UInt64) : UInt32 × UInt32 :=
  let hz := if info.timebaseHz ≠ 0 then info.timebaseHz else 10000000
  let ticks := time.toUInt32
  let nsPerTick := if hz ≠ 0 then 1000000000 / hz else 100
  let nsPerTick := if nsPerTick = 0 then 1 else nsPerTick
  (if hz ≠ 0 then ticks / hz else 0, if hz ≠ 0 then ticks % hz * nsPerTick else 0)

/-- `AT_FDCWD` by its name. -/
def putDirfd (fd : UInt32) : Prog Unit := if fd = linuxAtFdcwd then puts "AT_FDCWD" else putdec fd

/-- A result whose top bit marks an error. -/
def putRet (ret : UInt32) (error : String) : Prog Unit :=
  if ret &&& 0x80000000 = 0 then putdec ret else puts error

/-- The path of the caller in a message, unless the pointer is null. -/
def putPath (a : UInt32) : Prog Unit := when (a ≠ 0) (linuxPrintUserCstr a 96)

/-! ## Process and time -/

def sysGetpid : Handler := fun _ _ g f ↦ do
  puts "[riscv32] linux getpid() -> "
  putdec xnuStage0LinuxPid
  puts "\n"
  pure (g, some (f.ret xnuStage0LinuxPid))

/-- The branch shared by the other calls for an id. -/
def getid (name : String) (ret : UInt32) : Handler := fun _ _ g f ↦ do
  puts "[riscv32] linux "
  puts name
  puts "() -> "
  putdec ret
  puts "\n"
  pure (g, some (f.ret ret))

def sysGetppid : Handler := getid "getppid" xnuStage0LinuxPpid
def sysGettid : Handler := getid "gettid" xnuStage0LinuxPid
def sysGetuid : Handler := getid "getuid" xnuStage0LinuxUid
def sysGeteuid : Handler := getid "geteuid" xnuStage0LinuxUid
def sysGetgid : Handler := getid "getgid" xnuStage0LinuxGid
def sysGetegid : Handler := getid "getegid" xnuStage0LinuxGid

def sysSetTidAddress : Handler := fun _ _ g f ↦ do
  puts "[riscv32] linux set_tid_address(addr=0x"
  puthex32 f.a0
  puts ") -> "
  putdec xnuStage0LinuxPid
  puts "\n"
  pure (g, some (f.ret xnuStage0LinuxPid))

def futex (name : String) : Handler := fun _ _ g f ↦ do
  let cmd := f.a1 &&& 0x7f
  puts "[riscv32] linux "
  puts name
  puts "(uaddr=0x"
  puthex32 f.a0
  puts ", op="
  putdec cmd
  puts ", val="
  putdec f.a2
  puts ") -> "
  let ret ← (if f.a0 = 0 then do
      puts "-EFAULT"
      pure (linuxErrno linuxEfault)
    else if cmd = 0 then do
      puts "-EAGAIN"
      pure (linuxErrno linuxEagain)
    else if cmd = 1 then do
      putdec 0
      pure 0
    else do
      puts "-EINVAL"
      pure (linuxErrno linuxEinval))
  puts "\n"
  pure (g, some (f.ret ret))

def sysFutex : Handler := futex "futex"
def sysFutexTime64 : Handler := futex "futex_time64"

def sysRtSigaction : Handler := fun _ _ g f ↦ do
  puts "[riscv32] linux rt_sigaction(sig="
  putdec f.a0
  puts ", act=0x"
  puthex32 f.a1
  puts ", oldact=0x"
  puthex32 f.a2
  puts ") -> "
  let ret ← (if f.a0 = 0 ∨ 65 ≤ f.a0 then do
      puts "-EINVAL"
      pure (linuxErrno linuxEinval)
    else do
      when (f.a2 ≠ 0) (linuxZeroUser f.a2 16)
      putdec 0
      pure 0)
  puts "\n"
  pure (g, some (f.ret ret))

def sysRtSigprocmask : Handler := fun _ _ g f ↦ do
  puts "[riscv32] linux rt_sigprocmask(how="
  putdec f.a0
  puts ", set=0x"
  puthex32 f.a1
  puts ", oldset=0x"
  puthex32 f.a2
  puts ") -> 0\n"
  when (f.a2 ≠ 0) (linuxZeroUser f.a2 (if f.a3 < 8 then f.a3 else 8))
  pure (g, some (f.ret 0))

def sysSchedGetaffinity : Handler := fun _ _ g f ↦ do
  puts "[riscv32] linux sched_getaffinity(pid="
  putdec f.a0
  puts ", len="
  putdec f.a1
  puts ") -> "
  let ret ← (if 1 < f.a0 ∨ f.a1 < 4 ∨ f.a2 = 0 then do
      puts "-EINVAL"
      pure (linuxErrno linuxEinval)
    else do
      linuxStore32 f.a2 1
      putdec 4
      pure 4)
  puts "\n"
  pure (g, some (f.ret ret))

def sysSchedSetaffinity : Handler := fun _ _ g f ↦ do
  puts "[riscv32] linux sched_setaffinity(pid="
  putdec f.a0
  puts ", len="
  putdec f.a1
  puts ") -> "
  let mask ← (if 1 < f.a0 ∨ f.a1 < 4 ∨ f.a2 = 0 then pure 0 else linuxLoad32 f.a2)
  let ret ← (if mask &&& 1 = 0 then do
      puts "-EINVAL"
      pure (linuxErrno linuxEinval)
    else do
      putdec 0
      pure 0)
  puts "\n"
  pure (g, some (f.ret ret))

def sysGetcpu : Handler := fun _ _ g f ↦ do
  puts "[riscv32] linux getcpu(cpu=0x"
  puthex32 f.a0
  puts ", node=0x"
  puthex32 f.a1
  puts ") -> 0\n"
  when (f.a0 ≠ 0) (linuxStore32 f.a0 0)
  when (f.a1 ≠ 0) (linuxStore32 f.a1 0)
  pure (g, some (f.ret 0))

def clockGetres (name : String) (write : UInt32 → Prog Unit) : Handler := fun _ _ g f ↦ do
  puts "[riscv32] linux "
  puts name
  puts "(clock="
  putdec f.a0
  puts ", tp=0x"
  puthex32 f.a1
  puts ") -> 0\n"
  when (f.a1 ≠ 0) (write f.a1)
  pure (g, some (f.ret 0))

def sysClockGetres : Handler := clockGetres "clock_getres" fun a ↦ do
  linuxStore32 a 0
  linuxStore32 (a + 4) 0
  linuxStore32 (a + 4) 1

def sysClockGetresTime64 : Handler := clockGetres "clock_getres_time64" fun a ↦ do
  linuxStore32 a 0
  linuxStore32 (a + 4) 0
  linuxStore32 (a + 8) 1
  linuxStore32 (a + 12) 0

def sysNanosleep : Handler := fun _ _ g f ↦ do
  puts "[riscv32] linux nanosleep(req=0x"
  puthex32 f.a0
  puts ", rem=0x"
  puthex32 f.a1
  puts ") -> 0\n"
  when (f.a1 ≠ 0) (linuxZeroUser f.a1 8)
  pure (g, some (f.ret 0))

def sysClockNanosleep : Handler := fun _ _ g f ↦ do
  puts "[riscv32] linux clock_nanosleep(clock="
  putdec f.a0
  puts ", req=0x"
  puthex32 f.a2
  puts ", rem=0x"
  puthex32 f.a3
  puts ") -> 0\n"
  when (f.a3 ≠ 0) (linuxZeroUser f.a3 8)
  pure (g, some (f.ret 0))

def sysSchedYield : Handler := fun _ _ g f ↦ do
  puts "[riscv32] linux sched_yield() -> 0\n"
  pure (g, some (f.ret 0))

def ppoll (name : String) : Handler := fun _ _ g f ↦ do
  puts "[riscv32] linux "
  puts name
  puts "(fds=0x"
  puthex32 f.a0
  puts ", nfds="
  putdec f.a1
  puts ") -> "
  let ret ← (if f.a0 = 0 ∧ f.a1 = 0 then do
      putdec 0
      pure 0
    else do
      puts "-EINVAL"
      pure (linuxErrno linuxEinval))
  puts "\n"
  pure (g, some (f.ret ret))

def sysPpoll : Handler := ppoll "ppoll"
def sysPpollTime64 : Handler := ppoll "ppoll_time64"

def sysGetrusage : Handler := fun _ _ g f ↦ do
  puts "[riscv32] linux getrusage(who="
  putdec f.a0
  puts ", usage=0x"
  puthex32 f.a1
  puts ") -> "
  let ret ← (if f.a1 = 0 then do
      puts "-EFAULT"
      pure (linuxErrno linuxEfault)
    else do
      linuxZeroUser f.a1 72
      putdec 0
      pure 0)
  puts "\n"
  pure (g, some (f.ret ret))

def sysTimes : Handler := fun info time g f ↦ do
  let (sec, nsec) := linuxTimeNow info time
  let ticks := sec * 100 + nsec / 10000000
  puts "[riscv32] linux times(tms=0x"
  puthex32 f.a0
  puts ") -> ticks="
  putdec ticks
  puts "\n"
  when (f.a0 ≠ 0) (linuxZeroUser f.a0 16)
  pure (g, some (f.ret ticks))

def sysUmask : Handler := fun _ _ g f ↦ do
  let old := g.umask
  let umask := f.a0 &&& 0o777
  puts "[riscv32] linux umask(mask="
  putdec umask
  puts ") -> "
  putdec old
  puts "\n"
  pure ({ g with umask }, some (f.ret old))

def clockGettime (name : String) (write : UInt32 → UInt32 → UInt32 → Prog Unit) : Handler :=
  fun info time g f ↦ do
    let (sec, nsec) := linuxTimeNow info time
    puts "[riscv32] linux "
    puts name
    puts "(clock="
    putdec f.a0
    puts ", tp=0x"
    puthex32 f.a1
    puts ") -> sec="
    putdec sec
    puts " nsec="
    putdec nsec
    puts "\n"
    when (f.a1 ≠ 0) (write f.a1 sec nsec)
    pure (g, some (f.ret (if f.a1 ≠ 0 then 0 else linuxErrno linuxEfault)))

def sysClockGettime : Handler := clockGettime "clock_gettime" fun a sec nsec ↦ do
  linuxStore32 a sec
  linuxStore32 (a + 4) nsec

def sysClockGettime64 : Handler := clockGettime "clock_gettime64" fun a sec nsec ↦ do
  linuxStore32 a sec
  linuxStore32 (a + 4) 0
  linuxStore32 (a + 8) nsec
  linuxStore32 (a + 12) 0

def sysGettimeofday : Handler := fun info time g f ↦ do
  let (sec, nsec) := linuxTimeNow info time
  puts "[riscv32] linux gettimeofday(tv=0x"
  puthex32 f.a0
  puts ") -> sec="
  putdec sec
  puts " usec="
  putdec (nsec / 1000)
  puts "\n"
  when (f.a0 ≠ 0) do
    linuxStore32 f.a0 sec
    linuxStore32 (f.a0 + 4) (nsec / 1000)
  when (f.a1 ≠ 0) do
    linuxStore32 f.a1 0
    linuxStore32 (f.a1 + 4) 0
  pure (g, some (f.ret 0))

/-! ## Memory -/

def sysBrk : Handler := fun _ _ g f ↦ do
  puts "[riscv32] linux brk(0x"
  puthex32 f.a0
  puts ") -> 0x"
  puthex32 xnuStage0LinuxBrk
  puts "\n"
  pure (g, some (f.ret xnuStage0LinuxBrk))

def sysMmap : Handler := fun _ _ g f ↦ do
  let len := linuxPageAlign f.a1
  puts "[riscv32] linux mmap(addr=0x"
  puthex32 f.a0
  puts ", len="
  putdec f.a1
  puts ", prot=0x"
  puthex32 f.a2
  puts ", flags=0x"
  puthex32 f.a3
  puts ") -> "
  let (g, ret) ← (if len ≠ 0 ∧ len ≤ xnuStage0MmapLimit - g.mmapNext then do
      linuxZeroUser g.mmapNext len
      puts "0x"
      puthex32 g.mmapNext
      pure ({ g with mmapNext := g.mmapNext + len }, g.mmapNext)
    else do
      puts "-ENOMEM"
      pure (g, linuxErrno linuxEnomem))
  puts "\n"
  pure (g, some (f.ret ret))

def sysMremap : Handler := fun _ _ g f ↦ do
  puts "[riscv32] linux mremap(old=0x"
  puthex32 f.a0
  puts ", old_size="
  putdec f.a1
  puts ", new_size="
  putdec f.a2
  puts ") -> "
  let ret ← (if f.a1 ≠ 0 ∧ ¬linuxUserRange f.a0 f.a1 then do
      puts "-EFAULT"
      pure (linuxErrno linuxEfault)
    else if f.a2 ≤ f.a1 then do
      puts "0x"
      puthex32 f.a0
      pure f.a0
    else do
      puts "-ENOMEM"
      pure (linuxErrno linuxEnomem))
  puts "\n"
  pure (g, some (f.ret ret))

/-- The result of the calls that only check their range. -/
def putRangeCheck (f : UserFrame) : Prog UInt32 :=
  if f.a1 ≠ 0 ∧ ¬linuxUserRange f.a0 f.a1 then do
    puts "-EFAULT"
    pure (linuxErrno linuxEfault)
  else do
    putdec 0
    pure 0

def sysMadvise : Handler := fun _ _ g f ↦ do
  puts "[riscv32] linux madvise(addr=0x"
  puthex32 f.a0
  puts ", len="
  putdec f.a1
  puts ", advice="
  putdec f.a2
  puts ") -> "
  let ret ← putRangeCheck f
  puts "\n"
  pure (g, some (f.ret ret))

def munmap (name : String) : Handler := fun _ _ g f ↦ do
  puts "[riscv32] linux "
  puts name
  puts "(addr=0x"
  puthex32 f.a0
  puts ", len="
  putdec f.a1
  puts ") -> "
  let ret ← putRangeCheck f
  puts "\n"
  pure (g, some (f.ret ret))

def sysMunmap : Handler := munmap "munmap"
def sysMprotect : Handler := munmap "mprotect"

/-! ## System information -/

def sysUname : Handler := fun _ _ g f ↦ do
  puts "[riscv32] linux uname(buf=0x"
  puthex32 f.a0
  puts ") -> Linux/caribeos-rv32/riscv32\n"
  when (f.a0 ≠ 0) (linuxFillUname f.a0)
  pure (g, some (f.ret 0))

def sysGetcwd : Handler := fun _ _ g f ↦ do
  let ret ← linuxCopyCstrToUser f.a0 "/" f.a1 true
  puts "[riscv32] linux getcwd(buf=0x"
  puthex32 f.a0
  puts ", size="
  putdec f.a1
  puts ") -> "
  let ret ← (if ret = 0xffffffff then do
      puts "-ERANGE"
      pure (linuxErrno linuxErange)
    else do
      puts "\"/\""
      pure ret)
  puts "\n"
  pure (g, some (f.ret ret))

def sysSysinfo : Handler := fun info time g f ↦ do
  puts "[riscv32] linux sysinfo(info=0x"
  puthex32 f.a0
  puts ") -> "
  let ret ← (if f.a0 = 0 then do
      puts "-EFAULT"
      pure (linuxErrno linuxEfault)
    else do
      linuxCopyoutSysinfo f.a0 (linuxTimeNow info time).1
      putdec 0
      pure 0)
  puts "\n"
  pure (g, some (f.ret ret))

def sysPrlimit64 : Handler := fun _ _ g f ↦ do
  puts "[riscv32] linux prlimit64(pid="
  putdec f.a0
  puts ", resource="
  putdec f.a1
  puts ", old=0x"
  puthex32 f.a3
  puts ") -> "
  let limit : UInt32 := if f.a1 = 3 then 8 * 1024 * 1024 else if f.a1 = 7 then 16 else 0xffffffff
  let ret ← (if f.a2 ≠ 0 then do
      puts "-EINVAL"
      pure (linuxErrno linuxEinval)
    else do
      when (f.a3 ≠ 0) (linuxCopyoutRlimit64 f.a3 limit limit)
      putdec 0
      pure 0)
  puts "\n"
  pure (g, some (f.ret ret))

def sysGetrandom : Handler := fun _ _ g f ↦ do
  let len := if 32 < f.a1 then 32 else f.a1
  puts "[riscv32] linux getrandom(buf=0x"
  puthex32 f.a0
  puts ", len="
  putdec f.a1
  puts ") -> "
  let ret ← (if f.a0 = 0 then do
      puts "-EFAULT\n"
      pure (linuxErrno linuxEfault)
    else do
      storeAll f.a0 ((List.range len.toNat).map fun i ↦ (0xa5 ^^^ (.ofNat i * 73) ^^^ f.a2).toUInt8)
      putdec len
      puts " deterministic bytes\n"
      pure len)
  pure (g, some (f.ret ret))

/-! ## Files -/

def sysStatfs64 : Handler := fun _ _ g f ↦ do
  puts "[riscv32] linux statfs64(path=\""
  putPath f.a0
  puts "\") -> "
  let ret ← (if f.a1 = 0 then do
      puts "-EFAULT"
      pure (linuxErrno linuxEfault)
    else do
      let known ← (if f.a0 ≠ 0 then linuxKnownPath f.a0 else pure false)
      if known then do
        linuxCopyoutStatfs64 f.a1
        putdec 0
        pure 0
      else do
        puts "-ENOENT"
        pure (linuxErrno linuxEnoent))
  puts "\n"
  pure (g, some (f.ret ret))

def sysFaccessat : Handler := fun _ _ g f ↦ do
  puts "[riscv32] linux faccessat(dirfd="
  putDirfd f.a0
  puts ", path=\""
  putPath f.a1
  puts "\") -> "
  let known ← (if f.a1 ≠ 0 then linuxKnownPath f.a1 else pure false)
  let ret ← (if known then do
      putdec 0
      pure 0
    else do
      puts "-ENOENT"
      pure (linuxErrno linuxEnoent))
  puts "\n"
  pure (g, some (f.ret ret))

def sysReadlinkat : Handler := fun _ _ g f ↦ do
  puts "[riscv32] linux readlinkat(path=\""
  putPath f.a1
  puts "\", size="
  putdec f.a3
  puts ") -> "
  let hit ← (if f.a1 ≠ 0 then userStreqCase f.a1 [("/proc/self/exe", ())] else pure none)
  let ret ← (if hit.isSome then do
      let ret ← linuxCopyCstrToUser f.a2 "/kernel.elf" f.a3 false
      if ret = 0xffffffff then do
        puts "-ERANGE"
        pure (linuxErrno linuxErange)
      else do
        puts "\"/kernel.elf\""
        pure ret
    else do
      puts "-ENOENT"
      pure (linuxErrno linuxEnoent))
  puts "\n"
  pure (g, some (f.ret ret))

def sysFstatat64 : Handler := fun info _ g f ↦ do
  puts "[riscv32] linux fstatat64(dirfd="
  putDirfd f.a0
  puts ", path=\""
  putPath f.a1
  puts "\") -> "
  let ret ← (if f.a2 = 0 then do
      puts "-EFAULT"
      pure (linuxErrno linuxEfault)
    else do
      let found ← (if f.a1 ≠ 0 then linuxPathMetadata info.kernelSize f.a1 else pure none)
      match found with
      | some md => do
        linuxCopyoutStat64 f.a2 md
        putdec 0
        pure 0
      | none => do
        puts "-ENOENT"
        pure (linuxErrno linuxEnoent))
  puts "\n"
  pure (g, some (f.ret ret))

/-- What `statx` assigns for each path, over its defaults. -/
def statxCases (kernelSize : UInt32) : List (String × (PathMetadata → PathMetadata)) :=
  [("/", fun md ↦ { md with mode := linuxModeIfdir ||| linuxMode0755, ino := 5 }),
    ("/proc", fun md ↦ { md with mode := linuxModeIfdir ||| linuxMode0755, ino := 5 }),
    ("/proc/self", fun md ↦ { md with mode := linuxModeIfdir ||| linuxMode0755, ino := 5 }),
    ("/proc/self/exe", fun _ ↦ ⟨linuxModeIflnk ||| linuxMode0755, 11, 7⟩),
    ("/proc/version", fun md ↦ { md with size := strlen stage0ProcVersion, ino := 8 }),
    ("/proc/cpuinfo", fun md ↦ { md with size := strlen stage0ProcCpuinfo, ino := 9 }),
    ("/proc/meminfo", fun md ↦ { md with size := strlen stage0ProcMeminfo, ino := 10 }),
    ("/proc/uptime", fun md ↦ { md with size := strlen stage0ProcUptime, ino := 12 }),
    ("/proc/stat", fun md ↦ { md with size := strlen stage0ProcStat, ino := 13 }),
    ("/proc/caribeos", fun md ↦ { md with size := strlen stage0ProcCaribeos, ino := 11 }),
    ("/kernel.elf", fun md ↦ { md with size := kernelSize, ino := 17 })]

/-- The values that `statx` begins with. -/
def statxDefault : PathMetadata := ⟨linuxModeIfreg ||| linuxMode0644, 0, 8⟩

/-- The chain of `statx`. A known path that failed all of its tests would keep the defaults. -/
def statxMetadata (kernelSize a : UInt32) : Prog PathMetadata := do
  let assign ← userStreqCase a (statxCases kernelSize)
  pure (assign.getD id statxDefault)

def sysStatx : Handler := fun info _ g f ↦ do
  puts "[riscv32] linux statx(dirfd="
  putDirfd f.a0
  puts ", path=\""
  putPath f.a1
  puts "\", mask=0x"
  puthex32 f.a3
  puts ") -> "
  let known ← (if f.a1 ≠ 0 ∧ f.a4 ≠ 0 then linuxKnownPath f.a1 else pure false)
  let ret ← (if known then do
      let md ← statxMetadata info.kernelSize f.a1
      linuxCopyoutStatx f.a4 md
      putdec 0
      pure 0
    else if f.a4 = 0 then do
      puts "-EFAULT"
      pure (linuxErrno linuxEfault)
    else do
      puts "-ENOENT"
      pure (linuxErrno linuxEnoent))
  puts "\n"
  pure (g, some (f.ret ret))

/-- What `openat` opens: a file of `/proc` by its number, or the directory. -/
inductive ProcTarget where
  | file (number : UInt32)
  | dir
deriving DecidableEq

def openatCases : List (String × ProcTarget) :=
  [("/proc/version", .file 1), ("/proc/cpuinfo", .file 2), ("/proc/meminfo", .file 3),
    ("/proc/uptime", .file 5), ("/proc/stat", .file 6), ("/proc/caribeos", .file 4),
    ("/proc", .dir)]

def sysOpenat : Handler := fun _ _ g f ↦ do
  puts "[riscv32] linux openat(dirfd="
  putDirfd f.a0
  puts ", path=\""
  putPath f.a1
  puts "\") -> "
  let hit ← (if f.a1 ≠ 0 then userStreqCase f.a1 openatCases else pure none)
  let (g, ret) := match hit with
    | some (.file number) =>
      ({ g with procOpen := 1, procOffset := 0, procFile := number }, xnuStage0ProcFd)
    | some .dir => ({ g with procDirOpen := 1, procDirOffset := 0 }, xnuStage0ProcDirFd)
    | none => (g, 0xfffffffe)
  putRet ret "-ENOENT"
  puts "\n"
  pure (g, some (f.ret ret))

/-- `linux_proc_dir_entry`: the name, the inode number and the type of the entries of `/proc`. -/
def procDirEntries : List (String × UInt32 × UInt32) :=
  [(".", 5, 4), ("..", 2, 4), ("self", 6, 4), ("cpuinfo", 9, 8), ("meminfo", 10, 8),
    ("caribeos", 11, 8), ("version", 8, 8), ("uptime", 12, 8), ("stat", 13, 8)]

/-- `linux_proc_file_content`. -/
def linuxProcFileContent (file : UInt32) : List UInt8 :=
  if file = 1 then stage0ProcVersion
  else if file = 2 then stage0ProcCpuinfo
  else if file = 3 then stage0ProcMeminfo
  else if file = 5 then stage0ProcUptime
  else if file = 6 then stage0ProcStat
  else if file = 4 then stage0ProcCaribeos
  else []

/-- The loop of `getdents64` over the entries that are left: the new offset and the bytes written. -/
def getdentsLoop (a count : UInt32) :
    List (String × UInt32 × UInt32) → UInt32 → UInt32 → Prog (UInt32 × UInt32)
  | [], offset, total => pure (offset, total)
  | (name, ino, type) :: rest, offset, total =>
    if count - total < direntReclen name then pure (offset, total)
    else do
      linuxCopyoutDirent64 (a + total) ino (offset + 1) type name
      puts "\n  [dirent] name="
      puts name
      puts " ino="
      putdec ino
      puts " type="
      putdec type
      getdentsLoop a count rest (offset + 1) (total + direntReclen name)

def sysGetdents64 : Handler := fun _ _ g f ↦ do
  puts "[riscv32] linux getdents64(fd="
  putdec f.a0
  puts ", count="
  putdec f.a2
  puts ")"
  let (offset, ret) ← (if f.a0 = xnuStage0ProcDirFd ∧ g.procDirOpen ≠ 0 ∧ f.a1 ≠ 0 then
      getdentsLoop f.a1 f.a2 (procDirEntries.drop g.procDirOffset.toNat) g.procDirOffset 0
    else if f.a1 = 0 then pure (g.procDirOffset, linuxErrno linuxEfault)
    else pure (g.procDirOffset, linuxErrno linuxEbadf))
  puts "\n[riscv32] linux getdents64 -> "
  putRet ret (if ret = linuxErrno linuxEfault then "-EFAULT" else "-EBADF")
  puts "\n"
  pure ({ g with procDirOffset := offset }, some (f.ret ret))

def sysFstatfs64 : Handler := fun _ _ g f ↦ do
  puts "[riscv32] linux fstatfs64(fd="
  putdec f.a0
  puts ") -> "
  let ret ← (if f.a1 = 0 then do
      puts "-EFAULT"
      pure (linuxErrno linuxEfault)
    else if f.a0 ≤ 2 ∨ f.a0 = xnuStage0ProcFd ∧ g.procOpen ≠ 0 ∨
        f.a0 = xnuStage0ProcDirFd ∧ g.procDirOpen ≠ 0 then do
      linuxCopyoutStatfs64 f.a1
      putdec 0
      pure 0
    else do
      puts "-EBADF"
      pure (linuxErrno linuxEbadf))
  puts "\n"
  pure (g, some (f.ret ret))

def sysFstat64 : Handler := fun _ _ g f ↦ do
  puts "[riscv32] linux fstat64(fd="
  putdec f.a0
  puts ") -> "
  let ret ← (if f.a1 = 0 then do
      puts "-EFAULT"
      pure (linuxErrno linuxEfault)
    else if f.a0 = xnuStage0ProcFd ∧ g.procOpen ≠ 0 then do
      let ino := if g.procFile = 4 then 11 else if g.procFile = 3 then 10
        else if g.procFile = 5 then 12 else if g.procFile = 6 then 13
        else if g.procFile = 2 then 9 else 8
      linuxCopyoutStat64 f.a1
        ⟨linuxModeIfreg ||| linuxMode0644, strlen (linuxProcFileContent g.procFile), ino⟩
      putdec 0
      pure 0
    else if f.a0 = xnuStage0ProcDirFd ∧ g.procDirOpen ≠ 0 then do
      linuxCopyoutStat64 f.a1 ⟨linuxModeIfdir ||| linuxMode0755, 0, 5⟩
      putdec 0
      pure 0
    else do
      puts "-EBADF"
      pure (linuxErrno linuxEbadf))
  puts "\n"
  pure (g, some (f.ret ret))

/-- How many bytes `read` delivers: what is asked for or what is left of the file. -/
def readLength (g : Stage0) (count : UInt32) : UInt32 :=
  let size := strlen (linuxProcFileContent g.procFile)
  let left := if g.procOffset < size then size - g.procOffset else 0
  if left < count then left else count

def sysRead : Handler := fun _ _ g f ↦ do
  puts "[riscv32] linux read(fd="
  putdec f.a0
  puts ", count="
  putdec f.a2
  puts ") -> "
  let (g, ret) ← (if f.a0 = xnuStage0ProcFd ∧ g.procOpen ≠ 0 ∧ f.a1 ≠ 0 then do
      let n := readLength g f.a2
      linuxCopyToUser f.a1
        (((linuxProcFileContent g.procFile).drop g.procOffset.toNat).take n.toNat)
      pure ({ g with procOffset := g.procOffset + n }, n)
    else pure (g, 0xfffffff7))
  putRet ret "-EBADF"
  puts "\n"
  pure (g, some (f.ret ret))

def sysClose : Handler := fun _ _ g f ↦ do
  puts "[riscv32] linux close(fd="
  putdec f.a0
  puts ") -> "
  let (g, ret) :=
    if f.a0 = xnuStage0ProcFd ∧ g.procOpen ≠ 0 then
      ({ g with procOpen := 0, procOffset := 0, procFile := 0 }, 0)
    else if f.a0 = xnuStage0ProcDirFd ∧ g.procDirOpen ≠ 0 then
      ({ g with procDirOpen := 0, procDirOffset := 0 }, 0)
    else (g, 0xfffffff7)
  putRet ret "-EBADF"
  puts "\n"
  pure (g, some (f.ret ret))

def sysWrite : Handler := fun _ _ g f ↦ do
  puts "[riscv32] linux write(fd="
  putdec f.a0
  puts ", len="
  putdec f.a2
  puts ") -> "
  linuxPrintUserBuf f.a1 f.a2
  pure ({ g with umodeWrites := g.umodeWrites + 1 }, some (f.ret f.a2))

/-- The loop of `writev` over `n` entries from `iov` on. -/
def writevLoop : UInt32 → ℕ → UInt32 → Prog UInt32
  | _, 0, total => pure total
  | iov, n + 1, total => do
    puts "  [iov] base=0x"
    let base ← linuxLoad32 iov
    puthex32 base
    puts " len="
    let len ← linuxLoad32 (iov + 4)
    putdec len
    puts " -> "
    linuxPrintUserBuf base len
    writevLoop (iov + 8) n (total + len)

/-- The number of entries that `writev` looks at. -/
def writevCount (iovcnt : UInt32) : ℕ := (if 4 < iovcnt then 4 else iovcnt).toNat

def sysWritev : Handler := fun _ _ g f ↦ do
  puts "[riscv32] linux writev(fd="
  putdec f.a0
  puts ", iovcnt="
  putdec f.a2
  puts ")\n"
  let total ← writevLoop f.a1 (writevCount f.a2) 0
  pure ({ g with umodeWrites := g.umodeWrites + 1 }, some (f.ret total))

/-! ## The dispatcher -/

def exit (name : String) : Handler := fun _ _ g f ↦ do
  puts "[riscv32] linux "
  puts name
  puts "(status="
  putdec f.a0
  puts ") syscalls="
  putdec g.umodeSyscalls
  puts " writes="
  putdec g.umodeWrites
  puts "\n"
  puts "[XNU-CaribeOS] kernel_bootstrap parked after umode proof\n"
  pure ({ g with umodeExits := g.umodeExits + 1 }, none)

def sysExit : Handler := exit "exit"
def sysExitGroup : Handler := exit "exit_group"

def unexpectedTrap : Handler := fun _ _ g f ↦ do
  puts "[riscv32] unexpected user trap scause=0x"
  puthex32 f.scause
  puts " sepc=0x"
  puthex32 f.sepc
  puts " stval=0x"
  puthex32 f.stval
  puts " syscall="
  putdec f.a7
  puts "\n"
  pure (g, none)

/-- The branches by the number of the system call. -/
def syscalls : List (UInt32 × Handler) :=
  [(172, sysGetpid), (173, sysGetppid), (178, sysGettid), (174, sysGetuid), (175, sysGeteuid),
    (176, sysGetgid), (177, sysGetegid), (96, sysSetTidAddress), (98, sysFutex),
    (422, sysFutexTime64), (134, sysRtSigaction), (135, sysRtSigprocmask),
    (123, sysSchedGetaffinity), (122, sysSchedSetaffinity), (168, sysGetcpu),
    (114, sysClockGetres), (406, sysClockGetresTime64), (101, sysNanosleep),
    (115, sysClockNanosleep), (124, sysSchedYield), (73, sysPpoll), (414, sysPpollTime64),
    (165, sysGetrusage), (153, sysTimes), (166, sysUmask), (214, sysBrk), (222, sysMmap),
    (216, sysMremap), (233, sysMadvise), (215, sysMunmap), (226, sysMprotect), (160, sysUname),
    (17, sysGetcwd), (179, sysSysinfo), (261, sysPrlimit64), (43, sysStatfs64),
    (48, sysFaccessat), (78, sysReadlinkat), (79, sysFstatat64), (291, sysStatx),
    (113, sysClockGettime), (403, sysClockGettime64), (169, sysGettimeofday),
    (278, sysGetrandom), (56, sysOpenat), (61, sysGetdents64), (44, sysFstatfs64),
    (80, sysFstat64), (63, sysRead), (57, sysClose), (64, sysWrite), (66, sysWritev),
    (93, sysExit), (94, sysExitGroup)]

/-- What the dispatcher records of every trap. -/
def Stage0.enter (g : Stage0) (f : UserFrame) : Stage0 :=
  { g with
    umodeSyscalls := g.umodeSyscalls + 1
    umodeLastSyscall := f.a7
    lastScause := f.scause
    lastSepc := f.sepc
    lastStval := f.stval }

def xnuStage0UserTrapDispatch : Handler := fun info time g f ↦
  if f.scause = 8 then ((syscalls.lookup f.a7).getD unexpectedTrap) info time (g.enter f) f
  else unexpectedTrap info time (g.enter f) f

end CaribeOS
