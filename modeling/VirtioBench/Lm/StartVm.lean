import VirtioBench.Lib.Run
import VirtioBench.Lm.MacAddr
import Mathlib.Algebra.Order.Ring.Nat
import Mathlib.Data.List.Nodup

/- The start of the load modules (code_dump/dpdk/lm/startvm.cpp).

   `startvm` reads its options, generates the pool of MAC addresses and writes one qemu
   command for each load module. Five counters go through the loop over the modules:
   `idx_lm` and `idx_port` (which starts at `num_lm`) into the pool, the first CPU of
   the module, its VNC display and its telnet port. `getopt_long_only` is the
   environment: the options it returns, with `optarg`, are the input. An `int` that
   overflows is taken to wrap around.

   Correspondence (C++ ↔ Lean):
     the option loop                 ↔ `Opt`, `Options`, `Options.set`, `parseOptions`
     `atoi`, `getline`               ↔ `atoi`, `getlines`
     `assign_port_indexing`          ↔ `assignPortIndexing`
     the loops over `j`              ↔ `pinPorts`, `portLoop`
     the loop over `i`               ↔ `lmStep`, `modules`
     `string1` … `string4`, `command` ↔ `LmCommand.string1` … `LmCommand.string4`, `command`
     `main`                          ↔ `main`, `ExitFailure`

   `commands_disjoint` — with no more modules and ports than the pool has addresses, every
   command is written, and no two share a MAC address, a pinned CPU, a display or a telnet
   port. -/
namespace VirtioBench.Lm

/-- The values of `getopt_long_only`. -/
inductive Opt where
  | dry
  | help
  | numLm (optarg : String)
  | portsPerLm (optarg : String)
  | portsLmIndex (optarg : String)
  | ixiaCtrlPath (optarg : String)
  | qemuPath (optarg : String)
  | diskPath (optarg : String)
  | diskTemplate (optarg : String)
  | ifupPath (optarg : String)
  | vncModel (optarg : String)
  | display (optarg : String)
  | telnetPort (optarg : String)
  | vcpuPinStart (optarg : String)
  | bridge
  | bplane (optarg : String)
  | qhelper (optarg : String)
  | lmVcpu (optarg : String)
  | qPerPort
  | miscArgs (optarg : String)
  | unknown
  deriving DecidableEq, Repr

structure Options where
  numLm : Int32 := -1
  portsLmIndex : String := ""
  portsPerLm : Int32 := -1
  display : Int32 := 1000
  qPerPort : Int32 := 2
  telnetPort : Int32 := 1000
  dry : Bool := false
  vncModel : String := "std"
  ixiaCtrlPath : String := ""
  qemuPath : String := ""
  diskPath : String := ""
  ifupPath : String := ""
  diskTemplate : String := ""
  vcpuPinStart : Int32 := -1
  bplane : String := ""
  qhelper : String := ""
  lmVcpu : String := ""
  bridge : Int32 := -1
  miscArgs : String := ""
  idxPort : UInt32 := 0
  deriving DecidableEq, Repr

def isspace (c : Char) : Bool := c = ' ' || (9 ≤ c.toNat && c.toNat ≤ 13)

def digits : Nat → List Char → Nat
  | n, [] => n
  | n, c :: cs => if c.isDigit then digits (n * 10 + (c.toNat - 48)) cs else n

/-- The number at the beginning, between `LONG_MIN` and `LONG_MAX`. -/
def strtol (nptr : String) : Int :=
  let n : Int := match nptr.toList.dropWhile isspace with
    | '-' :: cs => -(digits 0 cs : Int)
    | '+' :: cs => digits 0 cs
    | cs => digits 0 cs
  max Int64.minValue.toInt (min n Int64.maxValue.toInt)

def atoi (nptr : String) : Int32 := Int32.ofInt (strtol nptr)

/-- One option. `none` is `display_usage_and_exit`. -/
def Options.set (o : Options) : Opt → Option Options
  | .dry => some { o with dry := true }
  | .numLm optarg => some { o with numLm := atoi optarg, idxPort := (atoi optarg).toUInt32 }
  | .portsPerLm optarg => some { o with portsPerLm := atoi optarg }
  | .portsLmIndex optarg => some { o with portsLmIndex := optarg }
  | .ixiaCtrlPath optarg => some { o with ixiaCtrlPath := optarg }
  | .qemuPath optarg => some { o with qemuPath := optarg }
  | .diskPath optarg => some { o with diskPath := optarg }
  | .diskTemplate optarg => some { o with diskTemplate := optarg }
  | .ifupPath optarg => some { o with ifupPath := optarg }
  | .vncModel optarg => some { o with vncModel := optarg }
  | .display optarg => some { o with display := atoi optarg }
  | .telnetPort optarg => some { o with telnetPort := atoi optarg }
  | .vcpuPinStart optarg => some { o with vcpuPinStart := atoi optarg }
  | .bridge => some { o with bridge := 1 }
  | .bplane optarg => some { o with bplane := optarg }
  | .qhelper optarg => some { o with qhelper := optarg }
  | .lmVcpu optarg => some { o with lmVcpu := optarg }
  | .miscArgs optarg => some { o with miscArgs := optarg }
  | .qPerPort => some { o with qPerPort := 10 }
  | .help => none
  | .unknown => none

def parseOptions (opts : List Opt) : Option Options := opts.foldlM Options.set {}

/-- The lines that `getline` with the delimiter `,` reads. One that is empty at the end is
not read. -/
def getlines (line : List Char) : List Char → List String
  | [] => if line = [] then [] else [String.ofList line]
  | c :: cs => if c = ',' then String.ofList line :: getlines [] cs else getlines (line ++ [c]) cs

def assignPortIndexing (numLm portsPerLm : Int32) (portsLmIndex : String)
    (indexPriority : Bool) : List Int32 :=
  if indexPriority then (getlines [] portsLmIndex.toList).map atoi
  else List.replicate numLm.toNatClampNeg portsPerLm

/-- What a command is written from. -/
structure LmCommand where
  i : Nat
  ports : Int32
  vcpuPinStart : Int32
  display : Int32
  telnetPort : Int32
  mac : String
  portMacs : List String
  deriving DecidableEq, Repr

/-- The counters of the loop over the modules. -/
structure Gen where
  i : Nat
  idxLm : UInt32
  idxPort : UInt32
  vcpuPinStart : Int32
  display : Int32
  telnetPort : Int32
  deriving DecidableEq, Repr

def Gen.start (o : Options) : Gen :=
  { i := 0, idxLm := 0, idxPort := o.idxPort, vcpuPinStart := o.vcpuPinStart,
    display := o.display, telnetPort := o.telnetPort }

/-- The first loop over the ports: two CPUs for each, if there is any pinning. -/
def pinPorts : Nat → Int32 → Int32
  | 0, pin => pin
  | n + 1, pin => pinPorts n (if pin ≠ -1 then pin + 2 else pin)

/-- The second: an address from the pool for each. -/
def portLoop (macaddr : List String) : Nat → UInt32 → Option (List String × UInt32)
  | 0, idxPort => some ([], idxPort)
  | n + 1, idxPort => do
    let mac ← macaddr[idxPort.toNat]?
    let (macs, idx) ← portLoop macaddr n (idxPort + 1)
    return (mac :: macs, idx)

/-- One module: its command, and the counters for the next. -/
def lmStep (macaddr : List String) (g : Gen) (ports : Int32) : Option (LmCommand × Gen) := do
  let mac ← macaddr[g.idxLm.toNat]?
  let (portMacs, idxPort) ← portLoop macaddr ports.toNatClampNeg g.idxPort
  return ({ i := g.i, ports := ports, vcpuPinStart := g.vcpuPinStart, display := g.display,
            telnetPort := 8900 + g.telnetPort, mac := mac, portMacs := portMacs },
    { i := g.i + 1, idxLm := g.idxLm + 1, idxPort := idxPort,
      vcpuPinStart := pinPorts ports.toNatClampNeg g.vcpuPinStart,
      display := g.display + 1, telnetPort := g.telnetPort + 1 })

/-- The loop over `ports_index`, which has `num_lm` entries. `none` is a lookup outside
`macaddr`. -/
def modules (macaddr : List String) : Gen → List Int32 → Option (List LmCommand)
  | _, [] => some []
  | g, ports :: portsIndex => do
    let (cmd, g) ← lmStep macaddr g ports
    let cmds ← modules macaddr g portsIndex
    return cmd :: cmds

def commands (o : Options) (portsIndex : List Int32) : Option (List LmCommand) := do
  let macaddr ← pregenerateMacAddresses
  modules macaddr (.start o) portsIndex

/-- The end of a line that goes on, and the indentation of the next. -/
def sep : String := " \\\n            "

/-- The part of `string1` that does not depend on the pinning. -/
def LmCommand.machine (c : LmCommand) (o : Options) : String :=
  "-name cdn_avip_vlm_" ++ toString c.i ++ ",debug-threads=on" ++ sep ++
  "-enable-kvm -m 4096" ++ sep ++
  "-object memory-backend-file,id=mem,size=4096M,mem-path=/dev/hugepages,share=on" ++ sep ++
  "-numa node,memdev=mem -mem-prealloc" ++ sep ++
  "-smp " ++ toString (c.ports * 2) ++ ",sockets=1,cores=" ++ toString (c.ports * 2) ++
    ",threads=1 -no-user-config" ++ sep ++
  "-nodefaults -rtc base=utc -boot strict=on" ++ sep ++
  "-device piix3-usb-uhci,id=usb,bus=pci.0,addr=0x1.0x2" ++ sep ++
  "-drive file=" ++ o.diskPath ++ "/" ++ o.diskTemplate ++ toString c.i ++ ".qcow2" ++
    ",if=none,id=drive-virtio-disk0,format=qcow2" ++ sep ++
  "-device virtio-blk-pci,scsi=off,bus=pci.0,addr=0x5,drive=drive-virtio-disk0," ++
    "id=virtio-disk0,bootindex=1" ++ sep ++
  "-chardev pty,id=charserial0 -device isa-serial,chardev=charserial0,id=serial0" ++ sep ++
  "-device virtio-balloon-pci,id=balloon0,bus=pci.0,addr=0x6 -msg timestamp=on -daemonize" ++ sep

/-- A pinned command has the pin options in the place of `misc_args`. -/
def LmCommand.string1 (c : LmCommand) (o : Options) : String :=
  if c.vcpuPinStart = -1 then o.qemuPath ++ sep ++ o.miscArgs ++ sep ++ c.machine o
  else
    let pinOpts := if o.vcpuPinStart ≠ -1 then "-vcpu_pin_start " else ""
    "taskset -c " ++ o.lmVcpu ++ " " ++ o.qemuPath ++ " " ++ pinOpts ++ toString c.vcpuPinStart ++
      sep ++ c.machine o

def LmCommand.string2 (c : LmCommand) (o : Options) : String :=
  let netdev :=
    if o.bridge = -1 then "-netdev tap,id=hostnet0,vhost=on,script=" ++ o.ifupPath
    else "-netdev bridge,id=hostnet0,br=" ++ o.bplane ++ ",helper=" ++ o.qhelper
  "\\\n            -vnc :" ++ toString c.display ++ " -vga " ++ o.vncModel ++ sep ++
  netdev ++ sep ++
  "-device virtio-net-pci,netdev=hostnet0,id=net0,mac=" ++ c.mac ++ ",bus=pci.0,addr=0x3" ++ sep ++
  "-serial telnet:127.0.0.1:" ++ toString c.telnetPort ++ ",server,nowait" ++ sep ++
  "\\\n            "

def LmCommand.string3 (c : LmCommand) (o : Options) : String :=
  String.join ((List.range c.portMacs.length).map (fun j =>
    "-chardev socket,id=char" ++ toString (j + 1) ++ ",path=" ++ o.ixiaCtrlPath ++ sep))

def LmCommand.string4 (c : LmCommand) (o : Options) : String :=
  let queues := ",queues=" ++ toString o.qPerPort
  let vectors := ",mq=on,mrg_rxbuf=on" ++ ",vectors=" ++ toString (o.qPerPort * 2 + 2)
  String.join (c.portMacs.zipIdx.map (fun (mac, j) =>
    "-netdev type=vhost-user,id=hostnet" ++ toString (j + 1) ++ queues ++ ",chardev=char" ++
      toString (j + 1) ++ ",vhostforce" ++ sep ++
    "-device virtio-net-pci,netdev=hostnet" ++ toString (j + 1) ++ vectors ++ ",id=net" ++
      toString (j + 1) ++ ",mac=" ++ mac ++ ",bus=pci.0,addr=0x" ++
      String.ofList (Nat.toDigits 16 (j + 7)) ++ ",emulator=30" ++ sep))

def command (o : Options) (c : LmCommand) : String :=
  c.string1 o ++ c.string2 o ++ c.string3 o ++ c.string4 o ++ "\n"

inductive ExitFailure where
  | usage
  | bridge
  | root
  | pin
  | portIndex (size : Nat) (numLm : Int32)
  deriving DecidableEq, Repr

/-- What is printed, the usage apart. -/
def ExitFailure.message : ExitFailure → String
  | .usage => ""
  | .bridge => "In Bridge mode, both -bplane and -qhelper options needs to be specified\n"
  | .root => "*** Error: This application requires root permission.\n"
  | .pin => "Both vcpu_pin_start and lm_vcpu should be specified together\n"
  | .portIndex size numLm =>
    "port_index size (" ++ toString size ++ ") is not equal to num_lm(" ++ toString numLm ++
      "), please check input parameters!\n"

/-- The text of the commands, printed with `-dry` and else given to `system`. -/
def main (argc : Nat) (opts : List Opt) (geteuid : UInt32) :
    Except ExitFailure (Option (List String)) :=
  if argc = 1 then .error .usage
  else
    match parseOptions opts with
    | none => .error .usage
    | some o =>
      if o.bridge = 1 && (o.bplane = "" || o.qhelper = "") then .error .bridge
      else if !o.dry && geteuid ≠ 0 then .error .root
      else if o.vcpuPinStart ≠ -1 && o.lmVcpu = "" then .error .pin
      else
        let portsIndex :=
          assignPortIndexing o.numLm o.portsPerLm o.portsLmIndex (o.portsLmIndex ≠ "")
        -- `num_lm` is converted to the type of `size()`
        if UInt64.ofNat portsIndex.length ≠ o.numLm.toInt64.toUInt64 then
          .error (.portIndex portsIndex.length o.numLm)
        else .ok ((commands o portsIndex).map (fun cmds => cmds.map (command o)))

/-- The number of ports of the modules. -/
def total (portsIndex : List Int32) : Nat := (portsIndex.map Int32.toNatClampNeg).sum

@[simp] theorem total_cons (ports : Int32) (portsIndex : List Int32) :
    total (ports :: portsIndex) = ports.toNatClampNeg + total portsIndex := rfl

/-- The module is pinned to `cpu`: two CPUs for each port. -/
def LmCommand.PinnedTo (c : LmCommand) (cpu : Int) : Prop :=
  c.vcpuPinStart.toInt ≤ cpu ∧ cpu < c.vcpuPinStart.toInt + 2 * c.ports.toInt

/-- The modules have these ports, and nothing in common. -/
structure Apart (portsIndex : List Int32) (cmds : List LmCommand) : Prop where
  ports : cmds.map (·.ports) = portsIndex
  nics : ∀ c ∈ cmds, c.portMacs.length = c.ports.toNatClampNeg
  macs : (cmds.map (·.mac) ++ cmds.flatMap (·.portMacs)).Nodup
  pinned : ∀ c ∈ cmds, c.vcpuPinStart ≠ -1
  vcpus : cmds.Pairwise (fun c d => ∀ cpu, c.PinnedTo cpu → ¬ d.PinnedTo cpu)
  displays : (cmds.map (·.display)).Nodup
  telnetPorts : (cmds.map (·.telnetPort)).Nodup

section Options

variable {o o' : Options}

/-- `idx_port` is set with `num_lm`. -/
theorem set_idxPort {opt : Opt} (h : o.set opt = some o')
    (ho : o.numLm = -1 ∨ o.idxPort = o.numLm.toUInt32) :
    o'.numLm = -1 ∨ o'.idxPort = o'.numLm.toUInt32 := by
  cases opt with
  | numLm optarg =>
    cases h
    exact .inr rfl
  | help => cases h
  | unknown => cases h
  | _ =>
    cases h
    exact ho

theorem parseOptions_idxPort {opts : List Opt} (h : parseOptions opts = some o) :
    o.numLm = -1 ∨ o.idxPort = o.numLm.toUInt32 :=
  Transition.run_invariant (fun _ _ _ ho hset => set_idxPort hset ho) (.inl rfl) h

end Options

section Loops

variable {macaddr : List String} {g g' : Gen} {ports : Int32} {portsIndex : List Int32}
  {cmd : LmCommand} {cmds : List LmCommand}

theorem portLoop_spec (n : Nat) (idxPort : UInt32) (hlen : idxPort.toNat + n ≤ macaddr.length)
    (hpool : macaddr.length ≤ poolSize) :
    ∃ idx, portLoop macaddr n idxPort = some ((macaddr.drop idxPort.toNat).take n, idx) ∧
      idx.toNat = idxPort.toNat + n := by
  induction n generalizing idxPort with
  | zero => exact ⟨idxPort, by simp [portLoop], rfl⟩
  | succ n ih =>
    rw [poolSize] at hpool
    have hsucc : (idxPort + 1).toNat = idxPort.toNat + 1 := by
      rw [UInt32.toNat_add]
      exact Nat.mod_eq_of_lt (by simp; omega)
    have hlt : idxPort.toNat < macaddr.length := by omega
    obtain ⟨idx, hrest, hidx⟩ := ih (idxPort + 1) (by omega)
    refine ⟨idx, ?_, by omega⟩
    rw [portLoop, List.getElem?_eq_getElem hlt, hrest, hsucc, List.drop_eq_getElem_cons hlt]
    rfl

theorem lmStep_some : lmStep macaddr g ports = some (cmd, g') ↔
    ∃ mac portMacs idxPort, macaddr[g.idxLm.toNat]? = some mac ∧
      portLoop macaddr ports.toNatClampNeg g.idxPort = some (portMacs, idxPort) ∧
      cmd = { i := g.i, ports := ports, vcpuPinStart := g.vcpuPinStart, display := g.display,
              telnetPort := 8900 + g.telnetPort, mac := mac, portMacs := portMacs } ∧
      g' = { i := g.i + 1, idxLm := g.idxLm + 1, idxPort := idxPort,
             vcpuPinStart := pinPorts ports.toNatClampNeg g.vcpuPinStart,
             display := g.display + 1, telnetPort := g.telnetPort + 1 } := by
  simp only [lmStep, Option.bind_eq_bind, Option.bind_eq_some_iff, Option.pure_def, Option.some_inj,
    Prod.exists, Prod.mk.injEq]
  constructor
  · rintro ⟨mac, hmac, portMacs, idxPort, hports, hcmd, hg⟩
    exact ⟨mac, portMacs, idxPort, hmac, hports, hcmd.symm, hg.symm⟩
  · rintro ⟨mac, portMacs, idxPort, hmac, hports, hcmd, hg⟩
    exact ⟨mac, hmac, portMacs, idxPort, hports, hcmd.symm, hg.symm⟩

theorem modules_cons : modules macaddr g (ports :: portsIndex) = some cmds ↔
    ∃ cmd g' rest, lmStep macaddr g ports = some (cmd, g') ∧
      modules macaddr g' portsIndex = some rest ∧ cmds = cmd :: rest := by
  simp only [modules, Option.bind_eq_bind, Option.bind_eq_some_iff, Option.pure_def,
    Option.some_inj, Prod.exists]
  constructor
  · rintro ⟨cmd, g', hstep, rest, hrest, hcmds⟩
    exact ⟨cmd, g', rest, hstep, hrest, hcmds.symm⟩
  · rintro ⟨cmd, g', rest, hstep, hrest, hcmds⟩
    exact ⟨cmd, g', hstep, rest, hrest, hcmds.symm⟩

/-- The modules take the addresses of the pool in order, from two places. -/
theorem modules_macs (g : Gen) (portsIndex : List Int32) (hpool : macaddr.length ≤ poolSize)
    (hlm : g.idxLm.toNat + portsIndex.length ≤ macaddr.length)
    (hport : g.idxPort.toNat + total portsIndex ≤ macaddr.length) :
    ∃ cmds, modules macaddr g portsIndex = some cmds ∧
      cmds.map (·.mac) = (macaddr.drop g.idxLm.toNat).take portsIndex.length ∧
      cmds.flatMap (·.portMacs) = (macaddr.drop g.idxPort.toNat).take (total portsIndex) ∧
      ∀ c ∈ cmds, c.portMacs.length = c.ports.toNatClampNeg := by
  induction portsIndex generalizing g with
  | nil => exact ⟨[], rfl, by simp, by simp [total], fun c hc => absurd hc List.not_mem_nil⟩
  | cons ports portsIndex ih =>
    rw [List.length_cons] at hlm
    rw [total_cons] at hport
    have hlt : g.idxLm.toNat < macaddr.length := by omega
    have hsucc : (g.idxLm + 1).toNat = g.idxLm.toNat + 1 := by
      rw [poolSize] at hpool
      rw [UInt32.toNat_add]
      exact Nat.mod_eq_of_lt (by simp; omega)
    obtain ⟨idx, hloop, hidx⟩ :=
      portLoop_spec ports.toNatClampNeg g.idxPort (by omega) hpool
    have hstep := lmStep_some.mpr
      ⟨macaddr[g.idxLm.toNat], _, idx, List.getElem?_eq_getElem hlt, hloop, rfl, rfl⟩
    obtain ⟨rest, hrest, hmacs, hports, hnics⟩ :=
      ih { i := g.i + 1, idxLm := g.idxLm + 1, idxPort := idx,
           vcpuPinStart := pinPorts ports.toNatClampNeg g.vcpuPinStart,
           display := g.display + 1, telnetPort := g.telnetPort + 1 }
        (by rw [hsucc]; omega) (by show idx.toNat + total portsIndex ≤ macaddr.length; omega)
    refine ⟨_, modules_cons.mpr ⟨_, _, rest, hstep, hrest, rfl⟩, ?_, ?_, ?_⟩
    · rw [List.map_cons, hmacs, hsucc, List.length_cons, List.drop_eq_getElem_cons hlt,
        List.take_succ_cons]
    · rw [List.flatMap_cons, hports, hidx, total_cons, List.take_add, List.drop_drop]
    · intro c hc
      rcases List.mem_cons.mp hc with rfl | hc
      · simp only [List.length_take, List.length_drop]
        omega
      · exact hnics c hc

theorem modules_ports (h : modules macaddr g portsIndex = some cmds) :
    cmds.map (·.ports) = portsIndex := by
  induction portsIndex generalizing g cmds with
  | nil =>
    cases h
    rfl
  | cons ports portsIndex ih =>
    obtain ⟨cmd, g', rest, hstep, hrest, rfl⟩ := modules_cons.mp h
    obtain ⟨mac, portMacs, idxPort, -, -, rfl, -⟩ := lmStep_some.mp hstep
    rw [List.map_cons, ih hrest]

/-- A counter that starts at `x` and goes up by one with every module. -/
theorem modules_counter {f : LmCommand → Int32} {x : Gen → Int32}
    (hf : ∀ {g ports cmd g'}, lmStep macaddr g ports = some (cmd, g') →
      f cmd = x g ∧ x g' = x g + 1)
    (h : modules macaddr g portsIndex = some cmds) :
    cmds.map f = (List.range portsIndex.length).map (fun k => x g + Int32.ofNat k) := by
  induction portsIndex generalizing g cmds with
  | nil =>
    cases h
    rfl
  | cons ports portsIndex ih =>
    obtain ⟨cmd, g', rest, hstep, hrest, rfl⟩ := modules_cons.mp h
    obtain ⟨hcmd, hnext⟩ := hf hstep
    rw [List.map_cons, ih hrest, hcmd, hnext, List.length_cons, List.range_succ_eq_map,
      List.map_cons, List.map_map]
    congr 1
    · simp
    · apply List.map_congr_left
      intro k _
      simp only [Function.comp_apply, Nat.succ_eq_add_one]
      rw [Int32.ofNat_add, Int32.add_assoc, Int32.add_comm 1]
      rfl

theorem counter_nodup (x : Int32) {n : Nat} (hn : n ≤ poolSize) :
    ((List.range n).map (fun k => x + Int32.ofNat k)).Nodup := by
  apply List.Nodup.map_on _ List.nodup_range
  intro j hj k hk heq
  rw [List.mem_range] at hj hk
  rw [poolSize] at hn
  have hofNat := congrArg Int32.toInt ((Int32.add_right_inj x).mp heq)
  rw [Int32.toInt_ofNat_of_lt (by omega), Int32.toInt_ofNat_of_lt (by omega)] at hofNat
  omega

/-- The first CPU of a module with `k` ports before it. -/
def pinAt (start : Int32) (k : Nat) : Int32 := start + Int32.ofNat (2 * k)

theorem toInt_pinAt {start : Int32} (hstart : 0 ≤ start.toInt) {k : Nat} (hk : k ≤ poolSize) :
    (pinAt start k).toInt = start.toInt + 2 * k ∧ start.toInt + 2 * k < 2 ^ 31 ∨
      (pinAt start k).toInt = start.toInt + 2 * k - 2 ^ 32 ∧ 2 ^ 31 ≤ start.toInt + 2 * k := by
  rw [poolSize] at hk
  have hlt := start.toInt_lt
  have hofNat : (Int32.ofNat (2 * k)).toInt = 2 * k := by
    rw [Int32.toInt_ofNat_of_lt (by omega)]
    omega
  rw [pinAt, Int32.toInt_add, hofNat, Int.bmod_def]
  omega

/-- The pinning is not switched off on the way. -/
theorem pinAt_ne {start : Int32} (hstart : 0 ≤ start.toInt) {k : Nat} (hk : k ≤ poolSize) :
    pinAt start k ≠ -1 := by
  intro h
  have htoInt := toInt_pinAt hstart hk
  have hone : (-1 : Int32).toInt = -1 := by decide
  rw [h, hone] at htoInt
  rw [poolSize] at hk
  have hlt := start.toInt_lt
  omega

theorem pinPorts_pinAt {start : Int32} (hstart : 0 ≤ start.toInt) {n k : Nat}
    (hk : k + n ≤ poolSize) : pinPorts n (pinAt start k) = pinAt start (k + n) := by
  induction n generalizing k with
  | zero => rfl
  | succ n ih =>
    have hnext : pinAt start k + 2 = pinAt start (k + 1) := by
      rw [pinAt, pinAt, Int32.add_assoc, Nat.mul_add, Int32.ofNat_add]
      rfl
    rw [pinPorts, if_pos (pinAt_ne hstart (by omega)), hnext, ih (by omega)]
    congr 1
    omega

/-- Modules with different ports before them are pinned apart, also where the CPU number
wraps around. -/
theorem pinned_apart {start : Int32} (hstart : 0 ≤ start.toInt) {c d : LmCommand} {j k : Nat}
    (hc : c.vcpuPinStart = pinAt start j) (hd : d.vcpuPinStart = pinAt start k)
    (hjk : j + c.ports.toNatClampNeg ≤ k) (hk : k + d.ports.toNatClampNeg ≤ poolSize) :
    ∀ cpu, c.PinnedTo cpu → ¬ d.PinnedTo cpu := by
  have hj' := toInt_pinAt hstart (k := j) (by omega)
  have hk' := toInt_pinAt hstart (k := k) (by omega)
  rw [poolSize] at hk
  have hlt := start.toInt_lt
  have hcports : c.ports.toInt ≤ c.ports.toNatClampNeg := Int.self_le_toNat _
  have hdports : d.ports.toInt ≤ d.ports.toNatClampNeg := Int.self_le_toNat _
  intro cpu hcpu hdpu
  simp only [LmCommand.PinnedTo, hc, hd] at hcpu hdpu
  omega

theorem modules_vcpus {start : Int32} (hstart : 0 ≤ start.toInt) {k : Nat}
    (hpin : g.vcpuPinStart = pinAt start k) (hk : k + total portsIndex ≤ poolSize)
    (h : modules macaddr g portsIndex = some cmds) :
    (∀ c ∈ cmds, ∃ j, k ≤ j ∧ j + c.ports.toNatClampNeg ≤ poolSize ∧
      c.vcpuPinStart = pinAt start j) ∧
    cmds.Pairwise (fun c d => ∀ cpu, c.PinnedTo cpu → ¬ d.PinnedTo cpu) := by
  induction portsIndex generalizing g k cmds with
  | nil =>
    cases h
    exact ⟨fun c hc => absurd hc List.not_mem_nil, List.Pairwise.nil⟩
  | cons ports portsIndex ih =>
    rw [total_cons] at hk
    obtain ⟨cmd, g', rest, hstep, hrest, rfl⟩ := modules_cons.mp h
    obtain ⟨mac, portMacs, idxPort, -, -, rfl, rfl⟩ := lmStep_some.mp hstep
    have hnext : pinPorts ports.toNatClampNeg g.vcpuPinStart =
        pinAt start (k + ports.toNatClampNeg) := by
      rw [hpin]
      exact pinPorts_pinAt hstart (by omega)
    obtain ⟨hlater, happart⟩ := ih hnext (by omega) hrest
    constructor
    · intro c hc
      rcases List.mem_cons.mp hc with rfl | hc
      · exact ⟨k, Nat.le_refl k, by simp only; omega, hpin⟩
      · obtain ⟨j, hj, hjsize, hjpin⟩ := hlater c hc
        exact ⟨j, by omega, hjsize, hjpin⟩
    · refine List.pairwise_cons.mpr ⟨?_, happart⟩
      intro d hd
      obtain ⟨j, hj, hjsize, hjpin⟩ := hlater d hd
      exact pinned_apart hstart hpin hjpin hj hjsize

/-- `idx_port` starts behind the addresses of the modules. -/
theorem idxPort_start {o : Options} {opts : List Opt} (ho : parseOptions opts = some o)
    (hlen : (portsIndex.length : Int) = o.numLm.toInt) :
    o.idxPort.toNat = portsIndex.length := by
  have hne : o.numLm ≠ -1 := by
    intro h
    rw [h] at hlen
    have hone : (-1 : Int32).toInt = -1 := by decide
    omega
  have hnum : o.numLm = Int32.ofNat portsIndex.length := by
    rw [← Int32.ofInt_eq_ofNat, hlen, Int32.ofInt_toInt]
  have hlt := o.numLm.toInt_lt
  rw [(parseOptions_idxPort ho).resolve_left hne, hnum, Int32.toUInt32_ofNat', UInt32.toNat_ofNat']
  exact Nat.mod_eq_of_lt (by omega)

end Loops

section Modules

variable {o : Options} {portsIndex : List Int32}

theorem commands_apart (hidx : o.idxPort.toNat = portsIndex.length)
    (hpool : portsIndex.length + total portsIndex ≤ poolSize) (hpin : 0 ≤ o.vcpuPinStart) :
    ∃ cmds, commands o portsIndex = some cmds ∧ Apart portsIndex cmds := by
  have hstart : 0 ≤ o.vcpuPinStart.toInt := Int32.le_iff_toInt_le.mp hpin
  obtain ⟨macaddr, hmacaddr, hsize, hnodup⟩ := pool_nodup
  obtain ⟨cmds, hcmds, hmacs, hports, hnics⟩ :=
    modules_macs (.start o) portsIndex (Nat.le_of_eq hsize)
      (by simp [Gen.start]; omega) (by simp [Gen.start]; omega)
  obtain ⟨hpins, hvcpus⟩ := modules_vcpus (k := 0) hstart (by simp [pinAt, Gen.start]) (by omega) hcmds
  refine ⟨cmds, ?_, ?_⟩
  · rw [commands, hmacaddr]
    exact hcmds
  constructor
  · exact modules_ports hcmds
  · exact hnics
  · -- together they are the first addresses of the pool
    have hpoolMacs : cmds.map (·.mac) ++ cmds.flatMap (·.portMacs) =
        macaddr.take (portsIndex.length + total portsIndex) := by
      rw [hmacs, hports, List.take_add]
      simp [Gen.start, hidx]
    rw [hpoolMacs]
    exact hnodup.sublist (List.take_sublist _ _)
  · intro c hc
    obtain ⟨j, -, hj, hjpin⟩ := hpins c hc
    rw [hjpin]
    exact pinAt_ne hstart (by omega)
  · exact hvcpus
  · have hcount := modules_counter (f := (·.display)) (x := (·.display)) ?_ hcmds
    · rw [hcount]
      exact counter_nodup _ (by omega)
    · intro g ports cmd g' hstep
      obtain ⟨mac, portMacs, idxPort, -, -, rfl, rfl⟩ := lmStep_some.mp hstep
      exact ⟨rfl, rfl⟩
  · have hcount := modules_counter (f := (·.telnetPort)) (x := fun g => 8900 + g.telnetPort) ?_ hcmds
    · rw [hcount]
      exact counter_nodup _ (by omega)
    · intro g ports cmd g' hstep
      obtain ⟨mac, portMacs, idxPort, -, -, rfl, rfl⟩ := lmStep_some.mp hstep
      exact ⟨rfl, (Int32.add_assoc _ _ _).symm⟩

/-- The comparison with `size()` after the conversion of `num_lm`. -/
theorem main_size {n : Nat} (hn : n ≤ poolSize) {numLm : Int32}
    (h : UInt64.ofNat n = numLm.toInt64.toUInt64) : (n : Int) = numLm.toInt := by
  rw [poolSize] at hn
  have hofNat : Int64.ofNat n = numLm.toInt64 := by
    rw [← UInt64.toInt64_ofNat', h, Int64.toInt64_toUInt64]
  have htoInt := congrArg Int64.toInt hofNat
  rw [Int64.toInt_ofNat_of_lt (by omega), Int32.toInt_toInt64] at htoInt
  exact htoInt

/-- `main` writes the commands of such modules, when the port counts fit `num_lm`. -/
theorem main_apart {argc : Nat} {opts : List Opt} {geteuid : UInt32} {r : Option (List String)}
    (h : main argc opts geteuid = .ok r) (ho : parseOptions opts = some o)
    (hports : portsIndex =
      assignPortIndexing o.numLm o.portsPerLm o.portsLmIndex (o.portsLmIndex ≠ ""))
    (hpool : portsIndex.length + total portsIndex ≤ poolSize) (hpin : 0 ≤ o.vcpuPinStart) :
    ∃ cmds, r = some (cmds.map (command o)) ∧ Apart portsIndex cmds := by
  simp only [main, ho, ← hports] at h
  split at h
  · cases h
  split at h
  · cases h
  split at h
  · cases h
  split at h
  · cases h
  split at h
  · cases h
  rename_i hsize
  have hlen := main_size (by omega) (not_ne_iff.mp hsize)
  obtain ⟨cmds, hcmds, happart⟩ := commands_apart (idxPort_start ho hlen) hpool hpin
  refine ⟨cmds, ?_, happart⟩
  rw [hcmds, Option.map_some, Except.ok.injEq] at h
  exact h.symm

end Modules

end VirtioBench.Lm
