import ArmSimulator.Continue
import ArmSimulator.MemoryDump
import ArmSimulator.Stream
import Mathlib.Data.Set.Card

/-!
# What the server is for

A debugger drives a target: it reads and writes its registers and its memory, sets and removes
breakpoints, and lets it run. `Serves` says what each request is to do to the target and which
payload answers it, in the terms of the target alone; how a request stands in a packet is
`Request.encode`. The handlers do what `Serves` says (`Gdb.served`).
-/

namespace ArmSimulator

/-- What a debugger sees of the simulator. -/
structure Target where
  arm : ArmCore
  /-- The code of the last step. -/
  exception : Byte
  breakpoints : Set Word

namespace Target

/-- The target with other registers. -/
def withReg (t : Target) (reg : Registers) : Target := { t with arm := { t.arm with reg } }

/-- The target with another memory. -/
def withMem (t : Target) (mem : Memory) : Target := { t with arm := { t.arm with mem } }

/-- The target stops where a breakpoint is set, or where a step has returned an exception. -/
def Stops (t : Target) : Prop := t.arm.pc ∈ t.breakpoints ∨ t.exception ≠ 0

/-- One instruction, with the locals of the `i`-th step. -/
def Step (endianess : Byte) (loc : Nat → Locals) (t : Target) (i : Nat) (t' : Target) : Prop :=
  ∃ exception arm, (armStep endianess (loc i)).run t.arm = some (exception, arm) ∧
    t' = { t with arm, exception }

end Target

/-- Why the target has stopped, as a reply says it. -/
def stopText (exception : Byte) : List Byte :=
  if exception = undefinedInstruction then ascii "S04"
  else if exception = prefetchAbort then ascii "S0A"
  else if exception = dataAbort then ascii "S0B"
  else if exception = endSimulation then ascii "X05"
  else ascii "S05"

/-! ## Requests -/

/-- A request of a debugger. -/
inductive Request where
  | readRegisters
  | writeRegisters (words : Nat → Word) (cpsr : Word)
  | readRegister (n : Nat)
  | writeRegister (n : Nat) (value : Word)
  | readMemory (address : Word) (size : Nat)
  | writeMemory (address : Word) (bytes : List Byte)
  | setBreakpoint (address : Word)
  | removeBreakpoint (address : Word)
  | step
  | cont
  | reason
  | kill
  | unsupported (index : Byte) (rest : List Byte)

namespace Request

/-- What a packet can ask for: a register that has one decimal digit, or is written to; a part of
the memory whose bytes fit in a reply; bytes that lie in the address space. -/
def Ok : Request → Prop
  | readRegister n => n ≤ 9
  | writeRegister n _ => n < 16
  | readMemory address size => size ≤ 2045 ∧ address.toNat + size ≤ 2 ^ 32
  | writeMemory address bytes =>
    bytes ≠ [] ∧ bytes.length < 2 ^ 32 ∧ address.toNat + bytes.length ≤ 2 ^ 32
  | unsupported index rest => supported index = false ∧ ∀ b ∈ index :: rest, PayloadByte b
  | _ => True

/-- The payload of a request about a breakpoint. -/
def breakpointPayload (index : Byte) (address : Word) : List Byte :=
  index :: ascii "0," ++ formatHex 8 address.toNat ++ ascii ",4"

/-- The payload of a request. -/
def encode : Request → List Byte
  | readRegisters => [Ascii.of 'g']
  | writeRegisters words cpsr =>
    Gdb.writeRegistersPayload (fun i => formatHex 8 (words i).toNat)
      (Gdb.floatsText ++ Gdb.unavailable) (formatHex 8 cpsr.toNat)
  | readRegister n => Gdb.readRegisterPayload n
  | writeRegister n value => Gdb.writeRegisterPayload n (formatHex 8 value.toNat)
  | readMemory address size =>
    Gdb.readPayload (formatHex 8 address.toNat) (formatHex 8 size)
  | writeMemory address bytes =>
    Gdb.writePayload (formatHex 8 address.toNat) (formatHex 8 bytes.length) bytes
  | setBreakpoint address => breakpointPayload (Ascii.of 'Z') address
  | removeBreakpoint address => breakpointPayload (Ascii.of 'z') address
  | step => [Ascii.of 's']
  | cont => [Ascii.of 'c']
  | reason => [Ascii.of '?']
  | kill => [Ascii.of 'k']
  | unsupported index rest => index :: rest

end Request

/-- What a request does to the target, and the payload of the reply; there is none to `kill`, which
closes the connection. -/
inductive Serves (endianess : Byte) (t : Target) :
    Request → Option (List Byte) → Target → Prop
  | readRegisters : Serves endianess t .readRegisters (some (Gdb.generalRegistersText t.arm)) t
  | writeRegisters {words : Nat → Word} {cpsr : Word} :
      Serves endianess t (.writeRegisters words cpsr) (some (ascii "OK"))
        (t.withReg (registersWriteCpsr
          (writeWords t.arm.mode words (List.range 16) t.arm.reg) cpsr))
  | readRegister {n : Nat} : Serves endianess t (.readRegister n)
      (some (formatHex 8 (registersRead t.arm.reg (BitVec.ofNat 8 n) t.arm.mode).toNat)) t
  | writeRegister {n : Nat} {value : Word} :
      Serves endianess t (.writeRegister n value) (some (ascii "OK"))
        (t.withReg (registersWrite t.arm.reg (BitVec.ofNat 8 n) t.arm.mode value))
  | readMemory {address : Word} {size : Nat} {text : List Byte}
      (hstart : address.toNat < t.arm.mem.size.toNat)
      -- of the bytes behind the end of the memory only the number of digits is said
      (hlen : text.length = 2 * size)
      (htext : ∀ n ≤ size, address.toNat + n ≤ t.arm.mem.size.toNat →
        text.take (2 * n) = t.arm.mem.digits address.toNat n) :
      Serves endianess t (.readMemory address size) (some text) t
  | readMemoryOutside {address : Word} {size : Nat}
      (hstart : t.arm.mem.size.toNat ≤ address.toNat) :
      Serves endianess t (.readMemory address size) (some (ascii "E0E")) t
  | writeMemory {address : Word} {bytes : List Byte} {mem : Memory}
      (hinside : address.toNat + bytes.length ≤ t.arm.mem.size.toNat)
      (hmem : Gdb.Written t.arm.mem mem address.toNat bytes) :
      Serves endianess t (.writeMemory address bytes) (some (ascii "OK")) (t.withMem mem)
  | writeMemoryOutside {address : Word} {bytes : List Byte} {mem : Memory}
      (hend : t.arm.mem.size.toNat < address.toNat + bytes.length)
      (hmem : Gdb.Written t.arm.mem mem address.toNat
        (bytes.take (t.arm.mem.size.toNat - address.toNat))) :
      Serves endianess t (.writeMemory address bytes) (some (ascii "E02")) (t.withMem mem)
  | setBreakpoint {address : Word} (hroom : t.breakpoints.ncard < maxBreakpointsNumber) :
      Serves endianess t (.setBreakpoint address) (some (ascii "OK"))
        { t with breakpoints := insert address t.breakpoints }
  | setBreakpointFull {address : Word} (hfull : t.breakpoints.ncard = maxBreakpointsNumber) :
      Serves endianess t (.setBreakpoint address) (some (ascii "E04")) t
  | removeBreakpoint {address : Word} (hmem : address ∈ t.breakpoints) :
      Serves endianess t (.removeBreakpoint address) (some (ascii "OK"))
        { t with breakpoints := t.breakpoints \ {address} }
  | removeBreakpointAbsent {address : Word} (hmem : address ∉ t.breakpoints) :
      Serves endianess t (.removeBreakpoint address) (some (ascii "E05")) t
  | step {loc : Nat → Locals} {t' : Target} (h : Target.Step endianess loc t 0 t') :
      Serves endianess t .step (some (stopText t'.exception)) t'
  | cont {loc : Nat → Locals} {n : Nat} {t' : Target}
      (h : FirstStop (Target.Step endianess loc) Target.Stops 0 t n t') :
      Serves endianess t .cont (some (stopText t'.exception)) t'
  | reason : Serves endianess t .reason (some (stopText t.exception)) t
  | kill : Serves endianess t .kill none t
  | unsupported {index : Byte} {rest : List Byte} :
      Serves endianess t (.unsupported index rest) (some []) t

/-- Only `kill` is served without a reply. -/
theorem Serves.kill_of_none {endianess : Byte} {t t' : Target} {r : Request}
    (h : Serves endianess t r none t') : r = .kill := by
  cases h
  rfl

/-! ## The handlers -/

/-- The target of a server. -/
def GdbData.target (g : GdbData) : Target where
  arm := g.arm
  exception := g.targetException
  breakpoints := g.addresses

/-- What a reply does to the connection: its frame is sent, or, without one, no more is sent. -/
def Replies (g : GdbData) : Option (List Byte) → GdbData → Prop
  | some payload, g' => g'.sent = g.sent ++ frame payload ∧ g'.closed = g.closed
  | none, g' => g' = { g with closed := true }

/-- There are as many addresses as entries. -/
theorem TableOk.ncard_addresses {g : GdbData} (h : TableOk g) :
    (g.addresses.ncard : Int) = g.breakpointsNumber := by
  obtain ⟨n, hn, -, hs⟩ := h.number
  rw [addresses_of_number hn, hs.injOn.ncard_image, hn, ← Finset.coe_range, Set.ncard_coe_finset,
    Finset.card_range]

/-- A number with a comma behind it is the first one that is read. -/
theorem Numeral.scanHexes_cons {digits : List Byte} {value : Nat} (h : Numeral digits value)
    (hv : value < 2 ^ 32) (n : Nat) (s : List Byte) :
    ArmSimulator.scanHexes (n + 1) (digits ++ Ascii.comma :: s) =
      BitVec.ofNat 32 value :: ArmSimulator.scanHexes n s := by
  rw [ArmSimulator.scanHexes, h.scanHex hv (endsDigits_cons (by decide))]
  rfl

namespace Gdb

open Fallible

/-- The handler returns, and has done what the request is for. -/
def Served (endianess : Byte) (g : GdbData) (r : Request) (m : HandlerM Unit) : Prop :=
  ∃ reply g', m.run g = .ok ((), g') ∧ Serves endianess g.target r reply g'.target ∧
    Replies g reply g' ∧ TableOk g'

section
variable {g : GdbData} {loc : GdbLocals} {endianess : Byte} {r : Request} {m : HandlerM Unit}

/-- A handler that ends with an answer. -/
theorem Served.of_answered {g₁ : GdbData} {packet : Nat → Byte} {reply : List Byte}
    (hrun : m.run g = .ok ((), g₁.answered packet reply)) (hg₁ : TableOk g₁)
    (hsent : g₁.sent = g.sent) (hclosed : g₁.closed = g.closed)
    (h : Serves endianess g.target r (some reply) g₁.target) : Served endianess g r m := by
  have hsame : SameTable g₁ (g₁.answered packet reply) := ⟨rfl, rfl⟩
  refine ⟨some reply, _, hrun, ?_, ⟨congrArg (· ++ frame reply) hsent, hclosed⟩,
    hsame.tableOk hg₁⟩
  have htarget : (g₁.answered packet reply).target = g₁.target := rfl
  rw [htarget]
  exact h

/-- The answer that says why the target has stopped. -/
theorem run_sendStopReason (g : GdbData) :
    ∃ packet, sendStopReason.run g = .ok ((), g.answered packet (stopText g.targetException)) := by
  unfold sendStopReason
  rw [run_get_bind]
  unfold stopText
  dsimp only
  split_ifs
  all_goals exact ⟨_, run_sendText (by decide) (by decide)⟩

/-- A memory dump has the digits of the bytes before the end of the memory. -/
theorem take_readText {mem : Memory} {k n size : Nat} (hn : n ≤ size)
    (hin : k + n ≤ mem.size.toNat) (hmax : k + n ≤ 2 ^ 32) (value : Byte) :
    (readText mem (BitVec.ofNat 32 k) value size).take (2 * n) = mem.digits k n := by
  have htake : ∀ (size n : Nat) (address : Word) (value : Byte), n ≤ size →
      (readText mem address value size).take (2 * n) = readText mem address value n := by
    intro size
    induction size with
    | zero =>
      rintro n address value hn
      rw [Nat.le_zero.1 hn]
      rfl
    | succ size ih =>
      rintro n address value hn
      cases n with
      | zero => rfl
      | succ n =>
        have hlen := length_formatHex 2 (memoryReadByte mem address value).2.toNat
        have htwo : 2 * (n + 1) = (formatHex 2 (memoryReadByte mem address value).2.toNat).length +
            2 * n := by omega
        rw [readText, readText, htwo, List.take_length_add_append, ih n _ _ (by omega)]
  rw [htake size n _ value hn, readText_inside hin]
  refine List.flatMap_congr fun i hi => ?_
  have hlt := List.mem_range.1 hi
  rw [Nat.mod_eq_of_lt (by omega)]

/-- The packet about a breakpoint has the type 0 and the address. -/
theorem breakpoint_numbers (loc : GdbLocals) (c d index : Byte) (address : Word) :
    ∃ rest, Request.breakpointPayload index address = index :: rest ∧
      breakpointType loc (packetData rest c d) = 0 ∧
      breakpointAddress loc (packetData rest c d) = address := by
  have ha : Numeral (formatHex 8 address.toNat) address.toNat :=
    numeral_formatHex (by decide) address.isLt
  have hzero : Numeral (ascii "0") 0 := ⟨by decide, by decide, by decide⟩
  have hfour : Numeral (ascii "4") 4 := ⟨by decide, by decide, by decide⟩
  refine ⟨ascii "0," ++ formatHex 8 address.toNat ++ ascii ",4", rfl, ?_⟩
  have hdata : packetData (ascii "0," ++ formatHex 8 address.toNat ++ ascii ",4") c d =
      ascii "0" ++ Ascii.comma :: (formatHex 8 address.toNat ++ Ascii.comma ::
        (ascii "4" ++ [Ascii.nul, c, d, Ascii.nul])) := by
    have hleft : ascii "0," = ascii "0" ++ [Ascii.comma] := by decide
    have hright : ascii ",4" = Ascii.comma :: ascii "4" := by decide
    rw [packetData, hleft, hright]
    simp
  have hnumbers := hzero.scanHexes_cons (by decide) 2 (formatHex 8 address.toNat ++ Ascii.comma ::
    (ascii "4" ++ [Ascii.nul, c, d, Ascii.nul]))
  rw [ha.scanHexes_cons address.isLt, BitVec.ofNat_toNat, BitVec.setWidth_eq] at hnumbers
  rw [breakpointType, breakpointAddress, hdata, hnumbers]
  exact ⟨rfl, rfl⟩

/-- The handler of such a packet answers whether the table could be changed. -/
theorem run_changeBreakpoint {change : Word → GdbM Int} {l : List Char} {data : List Byte} {i : Int}
    {g₁ : GdbData} (htype : breakpointType loc data = 0)
    (hrun : (change (breakpointAddress loc data)).run g = some (i, g₁)) (hlen : l.length ≤ 4091)
    (hne : l.all (Ascii.of · ≠ Ascii.nul) = true) :
    ∃ packet, (changeBreakpoint loc change (ascii (String.ofList l)) data).run g =
      .ok ((), g₁.answered packet (if i ≠ 0 then ascii "OK" else ascii (String.ofList l))) := by
  have htype' : ¬ breakpointType loc data ≠ 0 := fun h => h htype
  have hchange : (changeBreakpoint loc change (ascii (String.ofList l)) data).run g =
      (if i ≠ 0 then sendData (ascii "OK") else sendData (ascii (String.ofList l))).run g₁ :=
    (congrArg (StateT.run · g) (if_neg htype')).trans (run_bind_ok (run_ofProg hrun))
  rw [hchange]
  split_ifs
  · exact ⟨_, run_sendText (by decide) (by decide)⟩
  · exact ⟨_, run_sendText hlen hne⟩

/-- A handler that changes the breakpoints has done what the request is for if the change has. -/
theorem served_changeBreakpoint {change : Word → GdbM Int} {l : List Char} {data : List Byte}
    {i : Int} {g₁ : GdbData} (htype : breakpointType loc data = 0)
    (hrun : (change (breakpointAddress loc data)).run g = some (i, g₁))
    (hkeep : Prog.Preserves (fun g => (g.arm, g.targetException, g.sent, g.closed))
      (change (breakpointAddress loc data)))
    (hg₁ : TableOk g₁) (hlen : l.length ≤ 4091) (hne : l.all (Ascii.of · ≠ Ascii.nul) = true)
    (h : Serves endianess g.target r (some (if i ≠ 0 then ascii "OK" else ascii (String.ofList l)))
      { g.target with breakpoints := g₁.addresses }) :
    Served endianess g r (changeBreakpoint loc change (ascii (String.ofList l)) data) := by
  obtain ⟨packet, hanswer⟩ := run_changeBreakpoint htype hrun hlen hne
  obtain ⟨harm, hrest⟩ := Prod.mk.inj (hkeep _ _ _ hrun)
  obtain ⟨hexception, hrest⟩ := Prod.mk.inj hrest
  obtain ⟨hsent, hclosed⟩ := Prod.mk.inj hrest
  have htarget : g₁.target = { g.target with breakpoints := g₁.addresses } := by
    rw [GdbData.target, harm, hexception]
    rfl
  exact .of_answered hanswer hg₁ hsent hclosed (htarget ▸ h)

/-- The last part of a handler that lets the target run. -/
theorem served_sendStopReason {g₁ : GdbData} (hrun : m.run g = .ok ((), g₁)) (hg₁ : TableOk g₁)
    (hsent : g₁.sent = g.sent) (hclosed : g₁.closed = g.closed)
    (h : Serves endianess g.target r (some (stopText g₁.targetException)) g₁.target) :
    Served endianess g r (m >>= fun _ => sendStopReason) := by
  obtain ⟨packet, hstop⟩ := run_sendStopReason g₁
  exact .of_answered ((run_bind_ok hrun).trans hstop) hg₁ hsent hclosed h

/-- A step of the server is one of its target. -/
theorem step_of_singleStep {i : Nat} {g g' : GdbData} (h : SingleStep loc endianess g i g') :
    Target.Step endianess loc.step g.target i g'.target ∧ SameTable g g' ∧
      g'.sent = g.sent ∧ g'.closed = g.closed := by
  obtain ⟨exception, arm, hrun, -⟩ := armStep_run endianess (loc.step i) g.arm
  obtain rfl := (singleStep_iff hrun).1 h
  exact ⟨⟨exception, arm, hrun, rfl⟩, ⟨rfl, rfl⟩, rfl, rfl⟩

/-- A step of the target is a round of the loop of `cont`. -/
theorem exists_singleStep {i : Nat} {g : GdbData} {t : Target}
    (h : Target.Step endianess loc.step g.target i t) :
    ∃ g', SingleStep loc endianess g i g' ∧ g'.target = t := by
  obtain ⟨exception, arm, hrun, rfl⟩ := h
  exact ⟨_, (singleStep_iff hrun).2 rfl, rfl⟩

section
variable (hg : TableOk g) (c d : Byte)
include hg

/-- The handler of `m` serves a request for the memory. -/
theorem served_readMemory {address : Word} {size : Nat} (hsize : size ≤ 2045)
    (hmax : address.toNat + size ≤ 2 ^ 32) :
    Served endianess g (.readMemory address size)
      (handle loc endianess (received (Request.readMemory address size).encode c d)) := by
  have ha : Numeral (formatHex 8 address.toNat) address.toNat :=
    numeral_formatHex (by decide) address.isLt
  have hs : Numeral (formatHex 8 size) size := numeral_formatHex (by decide) (by omega)
  by_cases hin : address.toNat < g.arm.mem.size.toNat
  · obtain ⟨packet, hrun⟩ :=
      @run_readPayload g loc _ _ _ _ ha address.isLt hs hin hsize endianess c d
    refine .of_answered hrun hg rfl rfl (.readMemory hin (length_readText _ _ _ _) ?_)
    exact fun n hn hend => take_readText hn hend (by omega) loc.octet
  · have haddress : packetAddress loc (formatHex 8 address.toNat ++ Ascii.comma ::
        (formatHex 8 size ++ [Ascii.nul, c, d, Ascii.nul])) = address := by
      rw [(packet_numbers loc ha address.isLt hs (by omega) (endsDigits_cons (by decide))).1]
      rw [BitVec.ofNat_toNat, BitVec.setWidth_eq]
    obtain ⟨packet, hrun⟩ := run_readMemory_outside g loc _ (haddress.symm ▸ hin)
    have hhandle : (handle loc endianess (received (Request.readMemory address size).encode c
        d)).run g = .ok ((), g.answered packet (ascii "E0E")) :=
      (congrArg (StateT.run · g) (handle_readPayload endianess c d)).trans hrun
    exact .of_answered hhandle hg rfl rfl (.readMemoryOutside (Nat.not_lt.1 hin))

/-- The handler of `X` serves a request to write the memory. -/
theorem served_writeMemory {address : Word} {bytes : List Byte} (hne : bytes ≠ [])
    (hlen : bytes.length < 2 ^ 32) (hmax : address.toNat + bytes.length ≤ 2 ^ 32) :
    Served endianess g (.writeMemory address bytes)
      (handle loc endianess (received (Request.writeMemory address bytes).encode c d)) := by
  have hpos := List.length_pos_of_ne_nil hne
  have ha : Numeral (formatHex 8 address.toNat) address.toNat :=
    numeral_formatHex (by decide) address.isLt
  have hs : Numeral (formatHex 8 bytes.length) bytes.length :=
    numeral_formatHex (by decide) hlen
  by_cases hend : address.toNat + bytes.length ≤ g.arm.mem.size.toNat
  · obtain ⟨mem, packet, hrun, hmem⟩ := @run_writePayload g loc _ _ _ _ ha address.isLt hs
      (by omega) hend hmax hlen endianess c d
    have hsame : SameTable g (g.withMem mem) := ⟨rfl, rfl⟩
    exact .of_answered hrun (hsame.tableOk hg) rfl rfl (.writeMemory hend hmem)
  · obtain ⟨mem, packet, hrun, hmem⟩ := @run_writePayload_outside g loc _ _ _ _ ha
      address.isLt hs (Nat.not_le.1 hend) (by omega) hlen endianess c d
    have hsame : SameTable g (g.withMem mem) := ⟨rfl, rfl⟩
    exact .of_answered hrun (hsame.tableOk hg) rfl rfl
      (.writeMemoryOutside (Nat.not_le.1 hend) hmem)

/-- The handler of `Z` serves a request for a breakpoint. -/
theorem served_setBreakpoint {address : Word} :
    Served endianess g (.setBreakpoint address)
      (handle loc endianess (received (Request.setBreakpoint address).encode c d)) := by
  obtain ⟨rest, hpayload, htype, rfl⟩ :=
    breakpoint_numbers loc c d (Ascii.of 'Z') address
  obtain ⟨i, g₁, hrun, hg₁, hcase⟩ :=
    hg.run_gdbAddBreakpoint (breakpointAddress loc (packetData rest c d))
  rw [Request.encode, hpayload]
  refine served_changeBreakpoint (l := ['E', '0', '4']) htype hrun
    (preserves_gdbAddBreakpoint (fun _ _ _ => rfl) (fun _ _ => rfl) _) hg₁ (by decide)
    (by decide) ?_
  have hnumber : (g.target.breakpoints.ncard : Int) = g.breakpointsNumber := hg.ncard_addresses
  rcases hcase with ⟨hroom, rfl, hadded⟩ | ⟨hfull, rfl, rfl⟩
  · rw [hadded.addresses]
    exact .setBreakpoint (by omega)
  · exact .setBreakpointFull (by omega)

/-- The handler of `z` serves a request to remove a breakpoint. -/
theorem served_removeBreakpoint {address : Word} :
    Served endianess g (.removeBreakpoint address)
      (handle loc endianess (received (Request.removeBreakpoint address).encode c d)) := by
  obtain ⟨rest, hpayload, htype, rfl⟩ :=
    breakpoint_numbers loc c d (Ascii.of 'z') address
  obtain ⟨i, g₁, hrun, hg₁, hcase⟩ :=
    hg.run_gdbRemoveBreakpoint (breakpointAddress loc (packetData rest c d))
  rw [Request.encode, hpayload]
  refine served_changeBreakpoint (l := ['E', '0', '5']) htype hrun
    (preserves_gdbRemoveBreakpoint (fun _ _ _ => rfl) (fun _ _ => rfl) _) hg₁ (by decide)
    (by decide) ?_
  rcases hcase with ⟨hmem, rfl, haddresses⟩ | ⟨hmem, rfl, rfl⟩
  · rw [haddresses]
    exact .removeBreakpoint hmem
  · exact .removeBreakpointAbsent hmem

/-- The handler of `g` serves a request for the registers. -/
theorem served_readRegisters : Served endianess g .readRegisters
    (handle loc endianess (received Request.readRegisters.encode c d)) := by
  obtain ⟨packet, hrun⟩ := run_readGeneralRegisters g (packetData [] c d)
  exact .of_answered hrun hg rfl rfl .readRegisters

/-- The handler of `G` serves a request to write the registers. -/
theorem served_writeRegisters {words : Nat → Word} {cpsr : Word} :
    Served endianess g (.writeRegisters words cpsr)
      (handle loc endianess (received (Request.writeRegisters words cpsr).encode c d)) := by
  have hfields : (floatsText ++ unavailable).length = 200 := by
    rw [List.length_append, length_floatsText, length_unavailable]
  obtain ⟨packet, hrun⟩ := run_writeRegistersPayload g loc
    (fun i _ => wordText_formatHex (words i)) hfields (wordText_formatHex cpsr) endianess c d
  have hsame : SameTable g (g.withReg (registersWriteCpsr
      (writeWords g.arm.mode words (List.range 16) g.arm.reg) cpsr)) := ⟨rfl, rfl⟩
  exact .of_answered hrun (hsame.tableOk hg) rfl rfl .writeRegisters

/-- The handler of `p` serves a request for a register. -/
theorem served_readRegister {n : Nat} (hn : n ≤ 9) : Served endianess g (.readRegister n)
    (handle loc endianess (received (Request.readRegister n).encode c d)) := by
  obtain ⟨packet, hrun⟩ :=
    answers_readRegisterPayload g loc endianess (Nat.lt_of_le_of_lt hn (by decide)) c d
  rw [registerRead, if_pos hn] at hrun
  exact .of_answered hrun hg rfl rfl .readRegister

/-- The handler of `P` serves a request to write a register. -/
theorem served_writeRegister {n : Nat} {value : Word} (hn : n < 16) :
    Served endianess g (.writeRegister n value)
      (handle loc endianess (received (Request.writeRegister n value).encode c d)) := by
  obtain ⟨packet, hrun⟩ := @run_writeRegisterPayload g loc endianess _ _ _
    hn (wordText_formatHex value) c d
  have hsame : SameTable g (g.withReg
      (registersWrite g.arm.reg (BitVec.ofNat 8 n) g.arm.mode value)) := ⟨rfl, rfl⟩
  exact .of_answered hrun (hsame.tableOk hg) rfl rfl .writeRegister

/-- The handler of `s` serves a request for a step. -/
theorem served_step :
    Served endianess g .step (handle loc endianess (received Request.step.encode c d)) := by
  obtain ⟨g₁, hstep, -⟩ := singleStep_total loc endianess 0 g
  have hrun : SingleStep loc endianess g 0 g₁ := (hstep g₁).2 rfl
  obtain ⟨htarget, hsame, hsent, hclosed⟩ := step_of_singleStep hrun
  exact served_sendStopReason hrun (hsame.tableOk hg) hsent hclosed (.step htarget)

/-- Only the loop of `cont` may not return. -/
theorem served_cont {g' : GdbData}
    (hrun : (handle loc endianess (received Request.cont.encode c d)).run g = .ok ((), g')) :
    Served endianess g .cont (handle loc endianess (received Request.cont.encode c d)) := by
  obtain ⟨⟨⟩, g₁, hloop, -⟩ :=
    run_bind_eq_ok.1 (show (cont loc endianess (packetData [] c d)).run g = _ from hrun)
  obtain ⟨n, -, hfirst⟩ := (run_contLoop_iff hg 0 loc.fuel).1 hloop
  have hquiet : g₁.sent = g.sent ∧ g₁.closed = g.closed :=
    hfirst.run.invariant (I := fun g₁ => g₁.sent = g.sent ∧ g₁.closed = g.closed)
      (fun hstep h => by
        obtain ⟨-, -, hsent, hclosed⟩ := step_of_singleStep hstep
        exact ⟨hsent.trans h.1, hclosed.trans h.2⟩) ⟨rfl, rfl⟩
  have htarget : FirstStop (Target.Step endianess loc.step) Target.Stops 0 g.target n g₁.target :=
    hfirst.map (f := GdbData.target) (fun hstep => (step_of_singleStep hstep).1) exists_singleStep
      Iff.rfl
  exact served_sendStopReason hloop ((sameTable_of_run hfirst.run).tableOk hg) hquiet.1 hquiet.2
    (.cont htarget)

/-- The handler of a packet that is not supported serves it with the empty answer. -/
theorem served_unsupported {index : Byte} {rest : List Byte} (h : supported index = false) :
    Served endianess g (.unsupported index rest)
      (handle loc endianess (received (Request.unsupported index rest).encode c d)) := by
  have hnone : handler loc endianess index = none := by
    have hsome := isSome_table loc endianess index
    rw [h, table, Option.isSome_map] at hsome
    exact Option.isSome_eq_false_iff.1 hsome |> Option.isNone_iff_eq_none.1
  rw [Request.encode, handle_received, hnone]
  exact .of_answered (run_sendData [] (by decide) (by decide)) hg rfl rfl .unsupported

/-- **The handler of a request serves it**; that of `cont` does if it returns. -/
theorem served (hr : r.Ok) (hcont : r = .cont →
      ∃ g', (handle loc endianess (received r.encode c d)).run g = .ok ((), g')) :
    Served endianess g r (handle loc endianess (received r.encode c d)) := by
  cases r with
  | readRegisters => exact served_readRegisters hg c d
  | writeRegisters words cpsr => exact served_writeRegisters hg c d
  | readRegister n => exact served_readRegister hg c d hr
  | writeRegister n value => exact served_writeRegister hg c d hr
  | readMemory address size => exact served_readMemory hg c d hr.1 hr.2
  | writeMemory address bytes => exact served_writeMemory hg c d hr.1 hr.2.1 hr.2.2
  | setBreakpoint address => exact served_setBreakpoint hg c d
  | removeBreakpoint address => exact served_removeBreakpoint hg c d
  | step => exact served_step hg c d
  | cont =>
    obtain ⟨g', hrun⟩ := hcont rfl
    exact served_cont hg c d hrun
  | reason =>
    obtain ⟨packet, hstop⟩ := run_sendStopReason g
    exact .of_answered hstop hg rfl rfl .reason
  | kill =>
    have hsame : SameTable g { g with closed := true } := ⟨rfl, rfl⟩
    exact ⟨none, _, rfl, .kill, rfl, hsame.tableOk hg⟩
  | unsupported index rest => exact served_unsupported hg c d hr.1

end

end

end Gdb

end ArmSimulator
