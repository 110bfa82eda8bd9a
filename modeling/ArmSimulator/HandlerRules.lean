import ArmSimulator.MemoryPackets
import ArmSimulator.Step

/-!
# What every handler does

The faults that a handler may stop with, for each of its parts, and what it sends: whatever it has
written to the buffer before, a handler that returns ends with `gdb_send_buffer`, so that the buffer
holds the reply that was sent last. The only other one, `kill_request`, does not touch the buffer.
-/

namespace ArmSimulator

/-- What `gdb_transmit_packet` sends. -/
def GdbData.reply (g : GdbData) : List Byte := (List.range' 0 g.len).map g.packet

/-- Nothing is sent. -/
def Quiet (g g' : GdbData) : Prop := g'.sent = g.sent

/-- A reply is sent, and is in the buffer. -/
structure Replied (g g' : GdbData) : Prop where
  sent : g'.sent = g.sent ++ g'.reply
  first : g'.reply.head? = some Ascii.dollar
  len : g'.len ≤ maxPacketSize

/-! ## The buffer -/

section
variable {α : Type} {f : GdbData → α} {i : Nat}

/-- A write to `packet` preserves what does not depend on that byte. -/
theorem preserves_writePacket (c : Byte)
    (h : ∀ g, f { g with packet := Function.update g.packet i c } = f g) :
    Prog.Preserves f (writePacket i c) :=
  (Prog.Preserves.assert _).bind fun _ => Prog.Preserves.modify h

/-- A write of a string preserves what does not depend on the bytes of `packet` from its place on.
-/
theorem preserves_writeString (s : List Byte)
    (h : ∀ g j c, i ≤ j → f { g with packet := Function.update g.packet j c } = f g) :
    Prog.Preserves f (writeString i s) := by
  induction s generalizing i with
  | nil => exact preserves_writePacket _ fun g => h g i _ (Nat.le_refl i)
  | cons c s ih =>
    refine (preserves_writePacket c fun g => h g i c (Nat.le_refl i)).bind fun _ => ?_
    exact ih fun g j c hj => h g j c (Nat.le_of_succ_le hj)

/-- A byte that is written is one of the array. -/
theorem writePacket_eq_some {g g' : GdbData} {c : Byte}
    (h : (writePacket i c).run g = some ((), g')) :
    i < maxPacketSize ∧ g' = { g with packet := Function.update g.packet i c } := by
  by_cases hi : i < maxPacketSize
  · rw [run_writePacket hi] at h
    cases h
    exact ⟨hi, rfl⟩
  · rw [Gdb.run_writePacket_bound (Nat.not_lt.1 hi)] at h
    cases h

/-- The loop of `gdb_send_buffer` reads the buffer from the position on. -/
theorem bufferLoop_eq_some {g g' : GdbData} {check : Byte} {r : Nat × Byte}
    (h : (bufferLoop i check).run g = some (r, g')) : g' = g ∧ i ≤ r.1 := by
  induction i, check using bufferLoop.induct with
  | case1 i check hi ih =>
    rw [bufferLoop, if_pos hi, Prog.run_bind_of (run_readPacket hi)] at h
    by_cases hc : g.packet i ≠ Ascii.nul
    · rw [if_pos hc] at h
      obtain ⟨hg, hle⟩ := ih _ h
      exact ⟨hg, Nat.le_of_succ_le hle⟩
    · rw [if_neg hc] at h
      cases h
      exact ⟨rfl, Nat.le_refl i⟩
  | case2 i check hi =>
    rw [bufferLoop, if_neg hi] at h
    cases h

/-- **A reply** that is sent is in the buffer. -/
theorem replied_gdbSendBuffer {g g' : GdbData} (h : gdbSendBuffer.run g = some ((), g')) :
    Replied g g' := by
  unfold gdbSendBuffer at h
  obtain ⟨_, g₁, hfirst, h⟩ := Prog.run_bind_eq_some.1 h
  obtain ⟨-, rfl⟩ := writePacket_eq_some hfirst
  obtain ⟨⟨i, check⟩, g₂, hloop, h⟩ := Prog.run_bind_eq_some.1 h
  obtain ⟨rfl, hi⟩ := bufferLoop_eq_some hloop
  obtain ⟨_, g₃, hhash, h⟩ := Prog.run_bind_eq_some.1 h
  obtain ⟨_, g₄, hdigits, h⟩ := Prog.run_bind_eq_some.1 h
  obtain ⟨_, g₅, hnul, h⟩ := Prog.run_bind_eq_some.1 h
  obtain ⟨hmax, rfl⟩ := writePacket_eq_some hnul
  obtain ⟨_, g₆, hlen, h⟩ := Prog.run_bind_eq_some.1 h
  cases hlen
  rw [run_gdbTransmitPacket (Nat.le_of_lt hmax)] at h
  cases h
  -- nothing is sent meanwhile, and the first byte stays
  have hkeep : ∀ (g : GdbData) (k : Nat) (c : Byte), 1 ≤ k →
      (Function.update g.packet k c 0, g.sent) = (g.packet 0, g.sent) := by
    intro g k c hk
    rw [Function.update_of_ne (by omega)]
  have hhash := preserves_writePacket (f := fun g => (g.packet 0, g.sent)) Ascii.hash
    (fun g => hkeep g i Ascii.hash hi) _ _ _ hhash
  have hdigits := preserves_writeString (f := fun g => (g.packet 0, g.sent)) (i := i + 1) _
    (fun g j c hj => hkeep g j c (by omega)) _ _ _ hdigits
  have hpacket : g₄.packet 0 = Ascii.dollar :=
    (congrArg Prod.fst (hdigits.trans hhash)).trans (Function.update_self 0 Ascii.dollar g.packet)
  have hsent : g₄.sent = g.sent := congrArg Prod.snd (hdigits.trans hhash)
  refine ⟨?_, ?_, Nat.le_of_lt hmax⟩
  · show g₄.sent ++ _ = g.sent ++ _
    rw [hsent]
    rfl
  · show ((List.range' 0 (i + 1 + 2)).map (Function.update g₄.packet (i + 1 + 2) Ascii.nul)).head? =
      some Ascii.dollar
    rw [List.range'_succ, List.map_cons, List.head?_cons, Function.update_of_ne (by omega), hpacket]

end

/-! ## The table of breakpoints -/

section
variable {α : Type} {f : GdbData → α}

/-- Reading an entry of the table changes nothing. -/
theorem preserves_readBreakpoint (i : Int) : Prog.Preserves f (readBreakpoint i) :=
  (Prog.Preserves.assert _).bind fun _ => Prog.Preserves.get.bind fun _ => Prog.Preserves.pure _

/-- Reading the number of breakpoints changes nothing. -/
theorem preserves_readBreakpointsNumber : Prog.Preserves f readBreakpointsNumber :=
  Prog.Preserves.get.bind fun _ => Prog.Preserves.pure _

/-- The binary search changes nothing. -/
theorem preserves_findLoop (address : Word) (first last : Int) :
    Prog.Preserves f (findLoop address first last) := by
  induction first, last using findLoop.induct with
  | case1 first last h middle ih ih' =>
    rw [findLoop, dif_pos h]
    refine (preserves_readBreakpoint _).bind fun value =>
      Prog.Preserves.ite (fun _ => ih) fun _ => ?_
    exact Prog.Preserves.ite (fun _ => ih') fun _ => Prog.Preserves.pure _
  | case2 first last h =>
    rw [findLoop, dif_neg h]
    exact Prog.Preserves.pure _

/-- `gdb_find_breakpoint` changes nothing. -/
theorem preserves_gdbFindBreakpoint (address : Word) :
    Prog.Preserves f (gdbFindBreakpoint address) :=
  preserves_readBreakpointsNumber.bind fun _ => preserves_findLoop address 0 _

variable (hb : ∀ (g : GdbData) (i : Nat) (value : Word),
    f { g with breakpoints := Function.update g.breakpoints i value } = f g)
include hb

/-- A write to the table preserves what does not depend on its entries. -/
theorem preserves_writeBreakpoint (i : Int) (value : Word) :
    Prog.Preserves f (writeBreakpoint i value) :=
  (Prog.Preserves.assert _).bind fun _ => Prog.Preserves.modify fun g => hb g i.toNat value

/-- The loop that opens a gap writes to the table only. -/
theorem preserves_addLoop (address : Word) (j : Int) : Prog.Preserves f (addLoop address j) := by
  induction j using addLoop.induct with
  | case1 j h ih =>
    rw [addLoop, if_pos h]
    refine (preserves_readBreakpoint _).bind fun value =>
      Prog.Preserves.ite (fun _ => ?_) fun _ => ?_
    · exact (preserves_writeBreakpoint hb j value).bind fun _ => ih
    · exact Prog.Preserves.pure _
  | case2 j h =>
    rw [addLoop, if_neg h]
    exact Prog.Preserves.pure _

/-- The loop that closes a gap writes to the table only. -/
theorem preserves_removeLoop (j last : Int) : Prog.Preserves f (removeLoop j last) := by
  induction j using removeLoop.induct last with
  | case1 j h ih =>
    rw [removeLoop, if_pos h]
    refine (preserves_readBreakpoint _).bind fun value => ?_
    exact (preserves_writeBreakpoint hb j value).bind fun _ => ih
  | case2 j h =>
    rw [removeLoop, if_neg h]
    exact Prog.Preserves.pure _

variable (hn : ∀ (g : GdbData) (number : Int), f { g with breakpointsNumber := number } = f g)
include hn

/-- `gdb_add_breakpoint` writes to the table and its size only. -/
theorem preserves_gdbAddBreakpoint (address : Word) :
    Prog.Preserves f (gdbAddBreakpoint address) := by
  refine preserves_readBreakpointsNumber.bind fun number =>
    Prog.Preserves.ite (fun _ => ?_) fun _ => Prog.Preserves.pure _
  refine (preserves_gdbFindBreakpoint address).bind fun found => Prog.Preserves.ite
    (fun _ => Prog.Preserves.pure _) fun _ => ?_
  refine preserves_readBreakpointsNumber.bind fun number => ?_
  refine (Prog.Preserves.modify fun g => hn g _).bind fun _ => ?_
  refine (preserves_addLoop hb address number).bind fun j => ?_
  exact (preserves_writeBreakpoint hb j address).bind fun _ => Prog.Preserves.pure _

/-- `gdb_remove_breakpoint` writes to the table and its size only. -/
theorem preserves_gdbRemoveBreakpoint (address : Word) :
    Prog.Preserves f (gdbRemoveBreakpoint address) := by
  refine (preserves_gdbFindBreakpoint address).bind fun position => Prog.Preserves.ite
    (fun _ => Prog.Preserves.pure _) fun _ => ?_
  refine preserves_readBreakpointsNumber.bind fun number => ?_
  refine (Prog.Preserves.modify fun g => hn g _).bind fun _ => ?_
  exact (preserves_removeLoop hb position _).bind fun _ => Prog.Preserves.pure _

end

namespace Gdb

open Fallible

variable {F : Fault → Prop} {loc : GdbLocals} {endianess : Byte} {data : List Byte} {α β : Type}

/-! ## The parts of the handlers -/

section
variable {m : HandlerM α} {f : α → HandlerM β}

/-- Where nothing has been sent, the rest has to send nothing either. -/
theorem quiet_bind (hm : Meets F Quiet m) (hf : ∀ a, Meets F Quiet (f a)) :
    Meets F Quiet (m >>= f) := hm.bind (fun _ _ _ h h' => h'.trans h) hf

/-- Where nothing has been sent, the reply is the one that the rest sends. -/
theorem replied_bind (hm : Meets F Quiet m) (hf : ∀ a, Meets F Replied (f a)) :
    Meets F Replied (m >>= f) :=
  hm.bind (fun _ _ _ h h' => ⟨h'.sent.trans (congrArg (· ++ _) h), h'.first, h'.len⟩) hf

/-- Returning a value sends nothing. -/
theorem quiet_pure (a : α) : Meets F Quiet (pure a : HandlerM α) :=
  Meets.of_run fun g => ⟨a, g, rfl, rfl⟩

end

/-- Reading the state sends nothing. -/
theorem quiet_get : Meets F Quiet (get : HandlerM GdbData) :=
  Meets.of_run fun g => ⟨g, g, rfl, rfl⟩

/-- An update that leaves what was sent sends nothing. -/
theorem quiet_modify {f : GdbData → GdbData} (h : ∀ g, (f g).sent = g.sent) :
    Meets F Quiet (modify f : HandlerM Unit) := Meets.of_run fun g => ⟨(), f g, rfl, h g⟩

/-- A function that preserves what was sent sends nothing. -/
theorem quiet_ofProg {p : GdbM α} {e : Fault} (h : ¬ F e) (hp : Prog.Preserves GdbData.sent p) :
    Meets F Quiet (ofProg e p) := Meets.ofProg h hp

/-- A text that is put into `packet` is not sent yet. -/
theorem quiet_putText (h : ¬ F .packetBound) (i : Nat) (s : List Byte) :
    Meets F Quiet (putText i s) := quiet_ofProg h (preserves_writeString s fun _ _ _ _ => rfl)

/-- `gdb_send_buffer` sends the buffer as the reply. -/
theorem replied_sendBuffer (h : ¬ F .packetBound) : Meets F Replied sendBuffer :=
  Meets.ofProg h fun _ _ _ hr => replied_gdbSendBuffer hr

/-- A handler that sends a text that fits replies. -/
theorem replied_sendData {s : List Byte} (hlen : s.length ≤ 4091) (hne : NoNul s) :
    Meets F Replied (sendData s) := by
  refine Meets.of_run fun g => ⟨(), _, run_sendData s hlen hne, ?_⟩
  have hrun : (gdbSendData s).run g = some ((), _) := run_gdbSendData hlen hne
  obtain ⟨_, g₁, hs, hsend⟩ := Prog.run_bind_eq_some.1 hrun
  have hsent := preserves_writeString (f := GdbData.sent) (i := 1) s (fun _ _ _ _ => rfl) g _ _ hs
  have hreply := replied_gdbSendBuffer hsend
  exact ⟨hreply.sent.trans (congrArg (· ++ _) hsent), hreply.first, hreply.len⟩

/-- A handler that sends a text of the source replies. -/
theorem replied_sendText {l : List Char} (hlen : l.length ≤ 4091)
    (hne : l.all (Ascii.of · ≠ Ascii.nul) = true) :
    Meets F Replied (sendData (ascii (String.ofList l))) :=
  replied_sendData ((length_ascii l).trans_le hlen) (noNul_ascii hne)

/-- A handler that sends `OK` or the code of an error replies. -/
theorem replied_okOr {c : Prop} [Decidable c] {l : List Char} (hlen : l.length ≤ 4091)
    (hne : l.all (Ascii.of · ≠ Ascii.nul) = true) :
    Meets F Replied (if c then sendData (ascii "OK") else sendData (ascii (String.ofList l))) :=
  Meets.ite (fun _ => replied_sendText (by decide) (by decide)) fun _ => replied_sendText hlen hne

/-- `gdb_send_stop_reason` sends a reply. -/
theorem replied_sendStopReason : Meets F Replied sendStopReason := by
  refine replied_bind quiet_get fun gdb => ?_
  dsimp only
  split_ifs
  all_goals exact replied_sendText (by decide) (by decide)

/-- A round of the loop of `cont` is a step of the processor, whose code is kept. -/
theorem run_singleStep {i : Nat} {g : GdbData} {targetException : Byte} {arm : ArmCore}
    (h : (armStep endianess (loc.step i)).run g.arm = some (targetException, arm)) :
    (singleStep loc endianess i).run g = .ok ((), { g with arm, targetException }) := by
  rw [StateT.run, singleStep, h]

/-- A round of the loop of `cont` sends nothing. -/
theorem quiet_singleStep (i : Nat) : Meets F Quiet (singleStep loc endianess i) := by
  refine Meets.of_run fun gdb => ?_
  obtain ⟨targetException, arm, hrun, -⟩ := armStep_run endianess (loc.step i) gdb.arm
  exact ⟨(), { gdb with arm, targetException }, run_singleStep hrun, rfl⟩

/-- A string inside the packet is read without anything being sent. -/
theorem quiet_stringAt {k : Nat} (h : k < data.length ∨ ¬ F .pastEnd) :
    Meets F Quiet (stringAt loc data k) := by
  refine Meets.ite (fun _ => quiet_pure _) fun hk => ?_
  exact Meets.ite (fun _ => Meets.fault (h.resolve_left hk)) fun _ => quiet_pure _

/-- Reading `data[k]` sends nothing, and is inside of the data or may be a fault. -/
theorem quiet_byteAt {k : Nat} (h : k < data.length ∨ ¬ F .pastEnd) :
    Meets F Quiet (byteAt loc data k) := quiet_bind (quiet_stringAt h) fun _ => quiet_pure _

/-- `read_uint32` sends nothing, and reads inside of the data or may be a fault. -/
theorem quiet_readUint32 {i k : Nat} (h : k < data.length ∨ ¬ F .pastEnd) :
    Meets F Quiet (readUint32 loc i data k) := quiet_bind (quiet_stringAt h) fun _ => quiet_pure _

/-- `index` sends nothing. -/
theorem quiet_index (h : ¬ F .failedSearch) (c : Byte) : Meets F Quiet (index data c) := by
  unfold index
  split
  · exact quiet_pure _
  · exact Meets.fault h

/-! ## The handlers that answer in any case -/

section
variable (ht : ¬ F .tableBound) (hu : ¬ F .unfinished)
include ht hu

/-- The loop of `cont` may not end, or search outside the table of breakpoints. -/
theorem quiet_contLoop (i fuel : Nat) : Meets F Quiet (contLoop loc endianess i fuel) := by
  induction fuel generalizing i with
  | zero => exact Meets.fault hu
  | succ fuel ih =>
    refine quiet_bind (quiet_singleStep i) fun _ => quiet_bind quiet_get fun gdb => ?_
    refine quiet_bind (quiet_ofProg ht (preserves_gdbFindBreakpoint _)) fun position => ?_
    exact Meets.ite (fun _ => quiet_pure _) fun _ => ih (i + 1)

/-- `cont` replies when the target has stopped. -/
theorem replied_cont : Meets F Replied (cont loc endianess data) :=
  replied_bind (quiet_contLoop ht hu 0 loc.fuel) fun _ => replied_sendStopReason

end

/-- `step` replies after one step. -/
theorem replied_step : Meets F Replied (step loc endianess data) :=
  replied_bind (quiet_singleStep 0) fun _ => replied_sendStopReason

/-- `query` replies to every question. -/
theorem replied_query : Meets F Replied (query data) := by
  have hoffsets : Meets F Replied (sendData (ascii "Text=0;Data=0;Bss=0")) :=
    replied_sendText (by decide) (by decide)
  have hsupported : Meets F Replied (sendData (ascii "PacketSize=400")) :=
    replied_sendText (by decide) (by decide)
  have hstatus : Meets F Replied (sendData (ascii "T0;tnotrun:0")) :=
    replied_sendText (by decide) (by decide)
  have hempty : Meets F Replied (sendData []) := replied_sendData (by decide) (by decide)
  refine Meets.ite (fun _ => hoffsets) fun _ => Meets.ite (fun _ => hsupported) fun _ => ?_
  exact Meets.ite (fun _ => hstatus) fun _ => Meets.ite (fun _ => hempty) fun _ => hempty

/-- `set_thread` replies if it has a character to look at. -/
theorem replied_setThread (h : 1 < data.length ∨ ¬ F .pastEnd) :
    Meets F Replied (setThread loc data) := by
  refine replied_bind (quiet_byteAt (h.imp_left (Nat.lt_trans Nat.zero_lt_one))) fun type => ?_
  exact replied_bind (quiet_stringAt h) fun s => replied_okOr (by decide) (by decide)

/-- A handler that changes the breakpoints replies if the change sends nothing. -/
theorem replied_changeBreakpoint (ht : ¬ F .tableBound) {change : Word → GdbM Int} {l : List Char}
    (hchange : ∀ address, Prog.Preserves GdbData.sent (change address)) (hlen : l.length ≤ 4091)
    (hne : l.all (Ascii.of · ≠ Ascii.nul) = true) :
    Meets F Replied (changeBreakpoint loc change (ascii (String.ofList l)) data) := by
  refine Meets.ite (fun _ => replied_sendText (by decide) (by decide)) fun _ => ?_
  exact replied_bind (quiet_ofProg ht (hchange _)) fun changed => replied_okOr hlen hne

/-- `set_breakpoint` replies. -/
theorem replied_setBreakpoint (ht : ¬ F .tableBound) : Meets F Replied (setBreakpoint loc data) :=
  replied_changeBreakpoint ht
    (preserves_gdbAddBreakpoint (fun _ _ _ => rfl) fun _ _ => rfl) (by decide) (by decide)

/-- `remove_breakpoint` replies. -/
theorem replied_removeBreakpoint (ht : ¬ F .tableBound) :
    Meets F Replied (removeBreakpoint loc data) :=
  replied_changeBreakpoint ht
    (preserves_gdbRemoveBreakpoint (fun _ _ _ => rfl) fun _ _ => rfl) (by decide) (by decide)

/-! ## The others -/

/-- A register that is put into `packet` is not sent yet. -/
theorem quiet_readRegister (ha : ¬ F .assertion) (hb : ¬ F .packetBound) (i : Nat) (reg : Byte) :
    Meets F Quiet (readRegister i reg) :=
  quiet_bind (Meets.check (fun _ => rfl) (.inr ha)) fun _ =>
    quiet_bind quiet_get fun _ => quiet_putText hb _ _

/-- `read_single_register` replies if the register exists. -/
theorem replied_readSingleRegister (ha : ¬ F .assertion) (hb : ¬ F .packetBound) :
    Meets F Replied (readSingleRegister data) :=
  replied_bind (quiet_readRegister ha hb 1 _) fun _ => replied_sendBuffer hb

/-- A loop whose rounds send nothing sends nothing. -/
theorem quiet_foldlM {f : β → α → HandlerM β} (hf : ∀ b a, Meets F Quiet (f b a)) (l : List α)
    (b : β) : Meets F Quiet (l.foldlM f b) :=
  Meets.foldlM (R := Quiet) (fun _ => rfl) (fun _ _ _ h h' => h'.trans h) hf l b

/-- `read_general_registers` replies. -/
theorem replied_readGeneralRegisters : Meets F Replied (readGeneralRegisters data) := by
  have hreplied : Meets (fun _ => False) Replied (readGeneralRegisters data) := by
    refine replied_bind (quiet_foldlM (fun position i => ?_) _ 1) fun position => ?_
    · exact quiet_bind (quiet_readRegister id id _ _) fun _ => quiet_pure _
    refine replied_bind (quiet_foldlM (fun position i => ?_) _ position) fun position => ?_
    · exact quiet_bind (quiet_putText id _ _) fun _ => quiet_pure _
    refine replied_bind (quiet_putText id _ _) fun _ => replied_bind quiet_get fun gdb => ?_
    exact replied_bind (quiet_putText id _ _) fun _ => replied_sendBuffer id
  intro g
  obtain ⟨packet, hrun⟩ := run_readGeneralRegisters g data
  exact ⟨.of_ok hrun, (hreplied g).2⟩

/-- The loop of `read_memory` sends nothing. -/
theorem quiet_readLoop (hb : ¬ F .packetBound) (address : Word) (value : Byte)
    (position size : Nat) : Meets F Quiet (readLoop address value position size) := by
  induction size generalizing address value position with
  | zero => exact quiet_pure ()
  | succ size ih =>
    refine quiet_bind quiet_get fun gdb => ?_
    refine Meets.ite (fun _ => ?_) fun _ => quiet_pure ()
    exact quiet_bind (quiet_putText hb _ _) fun _ => ih _ _ _

/-- `read_memory` replies if its text fits into `packet`. -/
theorem replied_readMemory (hb : ¬ F .packetBound) : Meets F Replied (readMemory loc data) := by
  refine replied_bind quiet_get fun gdb => ?_
  refine Meets.ite (fun _ => ?_) fun _ => ?_
  · refine replied_bind (quiet_ofProg hb (preserves_writePacket _ fun _ => rfl)) fun _ => ?_
    exact replied_bind (quiet_readLoop hb _ _ _ _) fun _ => replied_sendBuffer hb
  · exact replied_bind (quiet_putText hb _ _) fun _ => replied_sendBuffer hb

/-- A write to a register sends nothing. -/
theorem quiet_writeRegister {i k : Nat} {reg : Word} (hr : reg < 16 ∨ ¬ F .assertion)
    (hk : k < data.length ∨ ¬ F .pastEnd) : Meets F Quiet (writeRegister loc i reg data k) := by
  refine quiet_bind (quiet_readUint32 hk) fun value => ?_
  refine quiet_bind (Meets.check (fun _ => rfl) (hr.imp_left fun h => decide_eq_true h)) fun _ => ?_
  exact quiet_modify fun _ => rfl

/-- `write_single_register` replies if it finds its `=` and the register exists. -/
theorem replied_writeSingleRegister (hs : ¬ F .failedSearch) (ha : ¬ F .assertion)
    (hp : ¬ F .pastEnd) : Meets F Replied (writeSingleRegister loc data) := by
  refine replied_bind (quiet_index hs _) fun k => ?_
  refine replied_bind (quiet_writeRegister (.inr ha) (.inr hp)) fun _ => ?_
  exact replied_sendText (by decide) (by decide)

/-- The rounds of the loop of `write_general_registers`, each of which ends eight characters further
on, read the packet up to there. -/
theorem quiet_writeRegisters {l : List Nat} (hl : ∀ i ∈ l, i < 16) (position : Nat)
    (hk : position + 8 * l.length ≤ data.length ∨ ¬ F .pastEnd) :
    Meets F Quiet (l.foldlM (fun position i => do
      writeRegister loc i (BitVec.ofNat 32 i) data position
      return position + 8) position) := by
  induction l generalizing position with
  | nil => exact quiet_pure position
  | cons i l ih =>
    have hreg : BitVec.ofNat 32 i < 16 := ofNat_lt (hl i List.mem_cons_self)
    rw [List.length_cons] at hk
    rw [List.foldlM_cons, bind_assoc]
    refine quiet_bind (quiet_writeRegister (.inl hreg) (hk.imp_left fun h => by omega)) fun _ => ?_
    rw [pure_bind]
    exact ih (fun j hj => hl j (List.mem_cons_of_mem i hj)) (position + 8)
      (hk.imp_left fun h => by omega)

/-- The loop of `write_general_registers` ends eight characters further on for each register. -/
theorem writeRegisters_position {l : List Nat} {position position' : Nat} {g g' : GdbData}
    (h : (l.foldlM (fun position i => do
      writeRegister loc i (BitVec.ofNat 32 i) data position
      return position + 8) position).run g = .ok (position', g')) :
    position' = position + 8 * l.length := by
  induction l generalizing position g with
  | nil =>
    cases h
    rfl
  | cons i l ih =>
    rw [List.foldlM_cons, bind_assoc] at h
    obtain ⟨_, g₁, -, hrest⟩ := run_bind_eq_ok.1 h
    rw [pure_bind] at hrest
    rw [ih hrest, List.length_cons]
    omega

/-- The digits of CPSR end at position 328 of the packet. -/
theorem writeRegistersLoop_position {position : Nat} {g g' : GdbData}
    (h : (writeRegistersLoop loc data 0).run g = .ok (position, g')) :
    position + 8 * 3 * 8 + 8 = 328 := by
  rw [writeRegisters_position h, List.length_range]

/-- `write_general_registers` replies if its texts are all in the packet. -/
theorem replied_writeGeneralRegisters (hk : 328 < data.length ∨ ¬ F .pastEnd) :
    Meets F Replied (writeGeneralRegisters loc data) := by
  refine Meets.bind_of (R := Quiet) ?_ ?_ fun g position g' hrun => ?_
  · exact fun _ _ _ h h' => ⟨h'.sent.trans (congrArg (· ++ _) h), h'.first, h'.len⟩
  · refine quiet_writeRegisters (fun i hi => List.mem_range.1 hi) 0 (hk.imp_left fun h => ?_)
    rw [List.length_range]
    omega
  · dsimp only
    rw [writeRegistersLoop_position hrun]
    refine replied_bind (quiet_readUint32 hk) fun value => ?_
    refine replied_bind (quiet_modify fun _ => rfl) fun _ => ?_
    exact replied_sendText (by decide) (by decide)

/-- The loop of `write_memory_binary` sends nothing. -/
theorem quiet_writeLoop (hp : ¬ F .pastEnd) (content : Nat) (address : Word) (writeOk : Bool)
    (size : Nat) : Meets F Quiet (writeLoop loc data content address writeOk size) := by
  induction size generalizing content address writeOk with
  | zero => exact quiet_pure writeOk
  | succ size ih =>
    -- what comes after the byte has been taken
    have hrest : ∀ r : Byte × Nat, Meets F Quiet (do
        let gdb ← get
        let w := memoryWriteByte gdb.arm.mem address r.1
        set { gdb with arm := { gdb.arm with mem := w.2 } }
        writeLoop loc data (r.2 + 1) (address + 1) (w.1 = .success) size) := by
      refine fun r => Meets.move (R := Quiet) (fun _ _ _ h h' => h'.trans h) fun g => ?_
      exact ⟨_, g.withMem (memoryWriteByte g.arm.mem address r.1).2, rfl, rfl, ih _ _ _⟩
    refine Meets.ite (fun _ => ?_) fun _ => quiet_pure writeOk
    refine quiet_bind (quiet_byteAt (.inr hp)) fun c => Meets.ite (fun _ => ?_) fun _ => ?_
    · exact quiet_bind (quiet_byteAt (.inr hp)) fun _ => quiet_bind (quiet_pure _) hrest
    · exact quiet_bind (quiet_pure _) hrest

/-- `write_memory_binary` replies if it finds its `:` and its bytes are all in the packet. -/
theorem replied_writeMemoryBinary (hs : ¬ F .failedSearch) (hp : ¬ F .pastEnd) :
    Meets F Replied (writeMemoryBinary loc data) := by
  refine replied_bind (quiet_index hs _) fun k => replied_bind quiet_get fun gdb => ?_
  exact replied_bind (quiet_writeLoop hp _ _ _ _) fun writeOk =>
    replied_okOr (by decide) (by decide)

/-! ## The table of the handlers -/

/-- The handlers that can fail. -/
def failing (loc : GdbLocals) : List (Byte × (List Byte → HandlerM Unit)) :=
  [(Ascii.of 'm', readMemory loc), (Ascii.of 'p', readSingleRegister),
    (Ascii.of 'G', writeGeneralRegisters loc), (Ascii.of 'P', writeSingleRegister loc),
    (Ascii.of 'X', writeMemoryBinary loc)]

/-- The handlers that can fail are those of the table. -/
theorem handler_failing {p : Byte × (List Byte → HandlerM Unit)} (h : p ∈ failing loc) :
    handler loc endianess p.1 = some p.2 := by
  simp only [failing, List.mem_cons, List.not_mem_nil, or_false] at h
  rcases h with rfl | rfl | rfl | rfl | rfl
  all_goals rfl

/-- A reply is sent, or nothing is done but to close the connection. -/
def Answered (g g' : GdbData) : Prop := Replied g g' ∨ g' = { g with closed := true }

/-- A handler that replies has answered. -/
theorem answered_of_replied {m : HandlerM α} (h : Meets F Replied m) : Meets F Answered m :=
  h.mono fun _ _ => .inl

section
variable {index : Byte} {handle : List Byte → HandlerM Unit}

/-- The handlers that are none of these always answer. -/
theorem answered_other (ht : ¬ F .tableBound) (hu : ¬ F .unfinished)
    (h : handler loc endianess index = some handle) (hlen : 1 < data.length ∨ ¬ F .pastEnd)
    (hne : (index, handle) ∉ failing loc) : Meets F Answered (handle data) := by
  obtain ⟨l₁, l₂, hsplit, -⟩ := List.lookup_eq_some_iff.1 h
  have hmem : (index, handle) ∈ handlers loc endianess := hsplit ▸ List.mem_append_right l₁
    List.mem_cons_self
  simp only [failing, List.mem_cons, Prod.mk.injEq, List.not_mem_nil, or_false, not_or] at hne
  simp only [handlers, List.mem_cons, Prod.mk.injEq, List.not_mem_nil, or_false] at hmem
  rcases hmem with ⟨rfl, rfl⟩ | ⟨rfl, rfl⟩ | ⟨rfl, rfl⟩ | ⟨rfl, rfl⟩ | ⟨rfl, rfl⟩ | hm |
    hp | ⟨rfl, rfl⟩ | ⟨rfl, rfl⟩ | ⟨rfl, rfl⟩ | ⟨rfl, rfl⟩ | hG | hX | hP | ⟨rfl, rfl⟩ | ⟨rfl, rfl⟩
  · exact answered_of_replied (replied_cont ht hu)
  · exact answered_of_replied (replied_cont ht hu)
  · exact Meets.of_run fun _ => ⟨(), _, rfl, .inr rfl⟩
  · exact answered_of_replied replied_query
  · exact answered_of_replied replied_readGeneralRegisters
  · exact absurd hm hne.1
  · exact absurd hp hne.2.1
  · exact answered_of_replied replied_sendStopReason
  · exact answered_of_replied (replied_setThread hlen)
  · exact answered_of_replied replied_step
  · exact answered_of_replied (replied_step : Meets F Replied (step loc endianess data))
  · exact absurd hG hne.2.2.1
  · exact absurd hX hne.2.2.2.2
  · exact absurd hP hne.2.2.2.1
  · exact answered_of_replied (replied_removeBreakpoint ht)
  · exact answered_of_replied (replied_setBreakpoint ht)

/-- **What a handler that returns has done**: it has sent a reply, which is in the buffer, or it has
closed the connection. -/
theorem answered_handler (h : handler loc endianess index = some handle) :
    Meets (fun _ => False) Answered (handle data) := by
  by_cases hmem : (index, handle) ∈ failing loc
  · simp only [failing, List.mem_cons, Prod.mk.injEq, List.not_mem_nil, or_false] at hmem
    rcases hmem with ⟨-, rfl⟩ | ⟨-, rfl⟩ | ⟨-, rfl⟩ | ⟨-, rfl⟩ | ⟨-, rfl⟩
    · exact answered_of_replied (replied_readMemory id)
    · exact answered_of_replied (replied_readSingleRegister id id)
    · exact answered_of_replied (replied_writeGeneralRegisters (.inr id))
    · exact answered_of_replied (replied_writeSingleRegister id id id)
    · exact answered_of_replied (replied_writeMemoryBinary id id)
  · exact answered_other id id h (.inr id) hmem

end

/-- The analysis of a packet has answered once, after the packet is accepted. -/
theorem answered_handle (packet : List Byte) :
    Meets (fun _ => False) Answered (handle loc endianess packet) := by
  unfold handle
  cases packet[1]? with
  | none => exact Meets.fault id
  | some index =>
    dsimp only
    split
    · next handler h => exact answered_handler h
    · exact answered_of_replied (replied_sendData (by decide) (by decide))

end Gdb

end ArmSimulator
