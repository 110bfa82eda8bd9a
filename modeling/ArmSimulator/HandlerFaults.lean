import ArmSimulator.HandlerRules

/-!
# What can stop a handler

Five of the handlers can read behind their packet, go on from a search that failed, write outside
the buffer, or fail an assertion: those of `m`, `p`, `G`, `P` and `X`. For each of the four kinds of
fault the packets with which it happens are found.
-/

namespace ArmSimulator

namespace Gdb

open Fallible

variable {F : Fault → Prop} {loc : GdbLocals} {endianess : Byte} {data : List Byte}

/-! ## The handlers that can fail -/

section
variable {g : GdbData}

/-- `read_memory` may write outside the buffer. -/
theorem avoids_readMemory : Avoids F (readMemory loc data) g ↔
    (F .packetBound → (packetAddress loc data).toNat < g.arm.mem.size.toNat →
      (packetSize loc data).toNat ≤ 2045) := by
  by_cases hin : (packetAddress loc data).toNat < g.arm.mem.size.toNat
  · rcases Nat.lt_or_ge 2045 (packetSize loc data).toNat with hsize | hsize
    · rw [avoids_of_error (run_readMemory_bound g loc data hin hsize)]
      exact ⟨fun hF h => absurd h hF, fun h hF => absurd (h hF hin) (Nat.not_le.2 hsize)⟩
    · obtain ⟨packet, hrun⟩ := run_readMemory g loc data hin hsize
      exact iff_of_true (.of_ok hrun) fun _ _ => hsize
  · obtain ⟨packet, hrun⟩ := run_readMemory_outside g loc data hin
    exact iff_of_true (.of_ok hrun) fun _ h => absurd h hin

/-- `read_single_register` may fail its assertion. -/
theorem avoids_readSingleRegister : Avoids F (readSingleRegister data) g ↔
    (F .assertion → (atoi data).setWidth 8 < (16 : Byte)) := by
  by_cases hr : (atoi data).setWidth 8 < (16 : Byte)
  · obtain ⟨packet, hrun⟩ := run_readSingleRegister g hr
    exact iff_of_true (.of_ok hrun) fun _ => hr
  · have hrun : (readSingleRegister data).run g = .error .assertion :=
      run_bind_error (run_bind_error (run_check_error (decide_eq_false hr)))
    rw [avoids_of_error hrun]
    exact ⟨fun hF h => absurd h hF, fun h hF => absurd (h hF) hr⟩

/-- A character of the string occurs a first time. -/
theorem exists_of_mem_cString {c : Byte} (h : c ∈ cString data) :
    ∃ pre s, data = pre ++ c :: s ∧ ∀ b ∈ pre, b ≠ Ascii.nul ∧ b ≠ c := by
  induction data with
  | nil => cases h
  | cons b data ih =>
    by_cases hnul : b = Ascii.nul
    · rw [hnul] at h
      cases h
    · by_cases hc : b = c
      · exact ⟨[], data, by rw [hc, List.nil_append], fun b hb => absurd hb List.not_mem_nil⟩
      · have hstring : cString (b :: data) = b :: cString data := by
          rw [cString, List.takeWhile_cons, decide_eq_true hnul]
          rfl
        rw [hstring] at h
        obtain ⟨pre, s, rfl, hpre⟩ := ih ((List.mem_cons.1 h).resolve_left (Ne.symm hc))
        refine ⟨b :: pre, s, rfl, fun b' hb' => ?_⟩
        rcases List.mem_cons.1 hb' with rfl | hb'
        · exact ⟨hnul, hc⟩
        · exact hpre b' hb'

/-- A character of the data that is not NUL is not the last one of the packet. -/
theorem ne_nil_of_packetData {rest pre s : List Byte} {c d b : Byte} (hb : b ≠ Ascii.nul)
    (h : packetData rest c d = pre ++ b :: s) : s ≠ [] := by
  rintro rfl
  have hlast := congrArg List.getLast? h
  rw [List.getLast?_concat, packetData, List.getLast?_append] at hlast
  exact hb (Option.some.inj hlast).symm

/-- The number of the register that `write_single_register` writes. -/
def writtenRegister (loc : GdbLocals) (data : List Byte) : Word :=
  (scanHexes 1 data)[0]?.getD loc.reg

/-- `write_single_register` may go on from a failed search, or fail its assertion; the text of the
value is in the packet. -/
theorem avoids_writeSingleRegister {rest : List Byte} {c d : Byte}
    (hdata : data = packetData rest c d) : Avoids F (writeSingleRegister loc data) g ↔
      (F .failedSearch → Ascii.equals ∈ cString data) ∧
        (F .assertion → Ascii.equals ∈ cString data → writtenRegister loc data < 16) := by
  by_cases hmem : Ascii.equals ∈ cString data
  · obtain ⟨pre, s, hsplit, hpre⟩ := exists_of_mem_cString hmem
    have hindex : (index data Ascii.equals).run g = .ok (pre.length, g) := by
      rw [hsplit]
      exact run_index hpre (by decide)
    have hpos : pre.length + 1 < data.length := by
      have hs := List.length_pos_of_ne_nil (ne_nil_of_packetData (by decide) (hdata ▸ hsplit))
      rw [hsplit, List.length_append, List.length_cons]
      omega
    have hread : (readUint32 loc 0 data (pre.length + 1)).run g =
        .ok ((scanHexEight (data.drop (pre.length + 1))).getD (loc.value 0), g) :=
      run_bind_ok (run_stringAt hpos)
    by_cases hr : writtenRegister loc data < 16
    · let value := (scanHexEight (data.drop (pre.length + 1))).getD (loc.value 0)
      let g' : GdbData := { g with arm := { g.arm with
        reg := registersWrite g.arm.reg ((writtenRegister loc data).setWidth 8) g.arm.mode value } }
      have hwrite : (writeRegister loc 0 (writtenRegister loc data) data (pre.length + 1)).run g =
          .ok ((), g') := (run_bind_ok hread).trans (run_bind_ok (run_check (decide_eq_true hr)))
      have hsend := run_sendText (g := g') (l := ['O', 'K']) (by decide) (by decide)
      have hrun : (writeSingleRegister loc data).run g =
          .ok ((), g'.answered (putString g'.packet 1 (ascii "OK")) (ascii "OK")) :=
        (run_bind_ok hindex).trans ((run_bind_ok hwrite).trans hsend)
      exact iff_of_true (.of_ok hrun) ⟨fun _ => hmem, fun _ _ => hr⟩
    · have hrun : (writeSingleRegister loc data).run g = .error .assertion :=
        (run_bind_ok hindex).trans (run_bind_error ((run_bind_ok hread).trans
          (run_bind_error (run_check_error (decide_eq_false hr)))))
      rw [avoids_of_error hrun]
      exact ⟨fun hF => ⟨fun _ => hmem, fun h => absurd h hF⟩, fun h hF => hr (h.2 hF hmem)⟩
  · have hrun : (writeSingleRegister loc data).run g = .error .failedSearch :=
      run_bind_error (run_index_failed hmem)
    rw [avoids_of_error hrun]
    exact ⟨fun hF => ⟨fun h => absurd h hF, fun _ h => absurd h hmem⟩, fun h hF => hmem (h.1 hF)⟩

/-- The bytes that the loop of `write_memory_binary` takes from the packet. -/
def bytesTaken (mem : Memory) (address : Word) (size : Nat) : Nat :=
  if address.toNat < mem.size.toNat then rounds mem address size else 0

/-- The content of the packet, which the first colon announces. -/
def contentOf (data : List Byte) : List Byte :=
  (data.dropWhile fun b => b ≠ Ascii.colon).tail

/-- `write_memory_binary` may go on from a failed search, or read behind the packet. -/
theorem avoids_writeMemoryBinary (hpast : loc.past = (fun _ => []) ∨ ¬ F .pastEnd) :
    Avoids F (writeMemoryBinary loc data) g ↔
      (F .failedSearch → Ascii.colon ∈ cString data) ∧
        (F .pastEnd → Ascii.colon ∈ cString data →
          (decodeBytes (bytesTaken g.arm.mem (packetAddress loc data) (packetSize loc data).toNat)
            (contentOf data)).isSome) := by
  let address := packetAddress loc data
  let size := (packetSize loc data).toNat
  have hanswer : ∀ (writeOk : Bool) (g : GdbData),
      Avoids F (if writeOk then sendData (ascii "OK") else sendData (ascii "E02")) g :=
    fun _ => (replied_okOr (by decide) (by decide)).avoids
  by_cases hmem : Ascii.colon ∈ cString data
  · obtain ⟨pre, s, hsplit, hpre⟩ := exists_of_mem_cString hmem
    have hindex : (index data Ascii.colon).run g = .ok (pre.length, g) := by
      rw [hsplit]
      exact run_index hpre (by decide)
    have hcontent : contentOf data = data.drop (pre.length + 1) := by
      have hall : ∀ b ∈ pre, decide (b ≠ Ascii.colon) = true :=
        fun b hb => decide_eq_true (hpre b hb).2
      rw [contentOf, hsplit, List.dropWhile_append_of_pos hall, ← List.drop_drop, List.drop_left]
      rfl
    have hloop : Avoids F (writeMemoryBinary loc data) g ↔
        Avoids F (writeLoop loc data (pre.length + 1) address
          (decide (address.toNat < g.arm.mem.size.toNat)) size >>= fun writeOk =>
            if writeOk then sendData (ascii "OK") else sendData (ascii "E02")) g := by
      have hget : (get : HandlerM GdbData).run g = .ok (g, g) := rfl
      have hin : decide (address.setWidth 64 < memoryGetSize g.arm.mem) =
          decide (address.toNat < g.arm.mem.size.toNat) := decide_eq_decide.2 lt_memoryGetSize
      rw [← hin]
      exact (avoids_bind hindex).trans (avoids_bind hget)
    rw [hloop, hcontent]
    by_cases hF : F .pastEnd
    · have hpast := hpast.resolve_right (not_not_intro hF)
      by_cases hin : address.toNat < g.arm.mem.size.toNat
      · have htaken : bytesTaken g.arm.mem address size = rounds g.arm.mem address size :=
          if_pos hin
        rw [decide_eq_true hin, htaken]
        cases hdecode :
          decodeBytes (rounds g.arm.mem address size) (data.drop (pre.length + 1)) with
        | some bs =>
          rw [avoids_bind (run_writeLoop loc (Nat.le_of_lt hin) hdecode)]
          exact iff_of_true (hanswer _ _) ⟨fun _ => hmem, fun _ _ => rfl⟩
        | none =>
          have hrun := run_writeLoop_past hpast (Nat.le_of_lt hin) hdecode
          rw [avoids_of_error (run_bind_error hrun)]
          exact iff_of_false (not_not_intro hF) fun h => Bool.false_ne_true (h.2 hF hmem)
      · have htaken : bytesTaken g.arm.mem address size = 0 := if_neg hin
        rw [decide_eq_false hin, htaken, avoids_bind run_writeLoop_false]
        exact iff_of_true (hanswer _ _) ⟨fun _ => hmem, fun _ _ => rfl⟩
    · refine iff_of_true (Meets.avoids (R := Replied) ?_ g) ⟨fun _ => hmem, fun h => absurd h hF⟩
      exact replied_bind (quiet_writeLoop hF _ _ _ _) fun _ => replied_okOr (by decide) (by decide)
  · have hrun : (writeMemoryBinary loc data).run g = .error .failedSearch :=
      run_bind_error (run_index_failed hmem)
    rw [avoids_of_error hrun]
    exact ⟨fun hF => ⟨fun h => absurd h hF, fun _ h => absurd h hmem⟩, fun h hF => hmem (h.1 hF)⟩

/-- `write_general_registers` may read behind the packet, up to CPSR. -/
theorem avoids_writeGeneralRegisters (hpast : loc.past = (fun _ => []) ∨ ¬ F .pastEnd) :
    Avoids F (writeGeneralRegisters loc data) g ↔ (F .pastEnd → 328 < data.length) := by
  by_cases hF : F .pastEnd
  · have hpast := hpast.resolve_right (not_not_intro hF)
    refine ⟨fun ha _ => ?_, fun h => (replied_writeGeneralRegisters (.inl (h hF))).avoids g⟩
    have hother : Avoids (fun e => e ≠ Fault.pastEnd) (writeGeneralRegisters loc data) g :=
      (replied_writeGeneralRegisters (.inr (not_not_intro rfl))).avoids g
    cases hrun : (writeGeneralRegisters loc data).run g with
    | error e =>
      have he : e = .pastEnd := of_not_not (hother e hrun)
      exact absurd (he ▸ hF) (ha e hrun)
    | ok r =>
      obtain ⟨position, g', hloop, hrest⟩ := run_bind_eq_ok.1 hrun
      dsimp only at hrest
      rw [writeRegistersLoop_position hloop] at hrest
      obtain ⟨value, g'', hread, -⟩ := run_bind_eq_ok.1 hrest
      obtain ⟨s, g₃, hstring, -⟩ := run_bind_eq_ok.1 hread
      by_contra hk
      rw [stringAt, if_neg hk, hpast, if_pos rfl] at hstring
      cases hstring
  · exact iff_of_true ((replied_writeGeneralRegisters (.inr hF)).avoids g) fun h => absurd h hF

end

/-! ## The packets -/

section
variable (ht : ¬ F .tableBound) (hu : ¬ F .unfinished)
include ht hu

variable {g : GdbData} {payload : List Byte} {c d : Byte}

/-- **The packets with which a handler can fail** are those of the handlers that can. -/
theorem avoids_handle_failing : Avoids F (handle loc endianess (received payload c d)) g ↔
      ∀ rest, ∀ p ∈ failing loc, payload = p.1 :: rest →
        Avoids F (p.2 (packetData rest c d)) g := by
  have hsend : Avoids F (sendData []) g := (replied_sendData (by decide) (by decide)).avoids g
  have hfailing : ∀ rest, ∀ p ∈ failing loc, handle loc endianess (received (p.1 :: rest) c d) =
      p.2 (packetData rest c d) := by
    intro rest p hp
    rw [handle_received, handler_failing hp]
  constructor
  · rintro ha rest p hp rfl
    rw [hfailing rest p hp] at ha
    exact ha
  · intro h
    cases payload with
    | nil => exact hsend
    | cons index rest =>
      rw [handle_received]
      split
      · next handle hhandle =>
        by_cases hmem : (index, handle) ∈ failing loc
        · exact h rest (index, handle) hmem rfl
        · refine (answered_other ht hu hhandle (.inl ?_) hmem).avoids g
          rw [packetData, List.length_append]
          exact Nat.lt_of_lt_of_le (by decide) (Nat.le_add_left 4 _)
      · exact hsend

/-- **The packets with which a handler fails** are listed here, one handler after the other. -/
theorem avoids_handle : Avoids F (handle loc endianess (received payload c d)) g ↔
    (∀ rest, payload = Ascii.of 'm' :: rest →
      Avoids F (readMemory loc (packetData rest c d)) g) ∧
    (∀ rest, payload = Ascii.of 'p' :: rest →
      Avoids F (readSingleRegister (packetData rest c d)) g) ∧
    (∀ rest, payload = Ascii.of 'G' :: rest →
      Avoids F (writeGeneralRegisters loc (packetData rest c d)) g) ∧
    (∀ rest, payload = Ascii.of 'P' :: rest →
      Avoids F (writeSingleRegister loc (packetData rest c d)) g) ∧
    ∀ rest, payload = Ascii.of 'X' :: rest →
      Avoids F (writeMemoryBinary loc (packetData rest c d)) g := by
  refine (avoids_handle_failing ht hu).trans ?_
  simp only [failing, List.forall_mem_cons, List.not_mem_nil, false_implies, implies_true, and_true,
    forall_and]

end

/-- The NUL in place of the `#` ends the string of the packet. -/
theorem cString_packetData (rest : List Byte) (c d : Byte) :
    cString (packetData rest c d) = cString rest := by
  induction rest with
  | nil => rfl
  | cons b rest ih =>
    show (b :: packetData rest c d).takeWhile _ = (b :: rest).takeWhile _
    rw [List.takeWhile_cons, List.takeWhile_cons]
    split
    · exact congrArg (b :: ·) ih
    · rfl

/-- No memory behind the packet. -/
def GdbLocals.strict (loc : GdbLocals) : GdbLocals := { loc with past := fun _ => [] }

section
variable (g : GdbData) (loc : GdbLocals) (endianess : Byte) (payload : List Byte) (c d : Byte)

/-- **Handlers that read their packet only.** No byte behind the packet is read, and no failed
search is used, unless a packet `G` is too short, a packet `P` has no `=`, or a packet `X` has no
`:` or fewer bytes than are written. -/
theorem readsPacket_iff :
    Avoids (fun e => e = .pastEnd ∨ e = .failedSearch)
        (handle loc.strict endianess (received payload c d)) g ↔
      (∀ rest, payload = Ascii.of 'G' :: rest → 325 ≤ rest.length) ∧
      (∀ rest, payload = Ascii.of 'P' :: rest → Ascii.equals ∈ cString rest) ∧
      ∀ rest, payload = Ascii.of 'X' :: rest → Ascii.colon ∈ cString rest ∧
        (decodeBytes (bytesTaken g.arm.mem (packetAddress loc (packetData rest c d))
            (packetSize loc (packetData rest c d)).toNat)
          (contentOf (packetData rest c d))).isSome := by
  have hG : ∀ rest, Avoids (fun e => e = .pastEnd ∨ e = .failedSearch)
      (writeGeneralRegisters loc.strict (packetData rest c d)) g ↔ 325 ≤ rest.length := by
    intro rest
    rw [avoids_writeGeneralRegisters (.inl rfl), packetData, List.length_append]
    simp
    omega
  have hP : ∀ rest, Avoids (fun e => e = .pastEnd ∨ e = .failedSearch)
      (writeSingleRegister loc.strict (packetData rest c d)) g ↔
        Ascii.equals ∈ cString rest := by
    intro rest
    rw [avoids_writeSingleRegister rfl, cString_packetData]
    simp
  have hX : ∀ rest, Avoids (fun e => e = .pastEnd ∨ e = .failedSearch)
      (writeMemoryBinary loc.strict (packetData rest c d)) g ↔ Ascii.colon ∈ cString rest ∧
        (decodeBytes (bytesTaken g.arm.mem (packetAddress loc (packetData rest c d))
            (packetSize loc (packetData rest c d)).toNat)
          (contentOf (packetData rest c d))).isSome := by
    intro rest
    rw [avoids_writeMemoryBinary (.inl rfl), cString_packetData]
    exact ⟨fun h => ⟨h.1 (.inr rfl), h.2 (.inl rfl) (h.1 (.inr rfl))⟩,
      fun h => ⟨fun _ => h.1, fun _ _ => h.2⟩⟩
  refine (avoids_handle (by simp) (by simp)).trans ⟨fun h => ?_, fun h => ?_⟩
  · obtain ⟨-, -, hg, hp, hx⟩ := h
    exact ⟨fun rest h => (hG rest).1 (hg rest h), fun rest h => (hP rest).1 (hp rest h),
      fun rest h => (hX rest).1 (hx rest h)⟩
  · obtain ⟨hg, hp, hx⟩ := h
    refine ⟨fun _ _ => avoids_readMemory.2 ?_, fun _ _ => avoids_readSingleRegister.2 ?_,
      fun rest h => (hG rest).2 (hg rest h), fun rest h => (hP rest).2 (hp rest h),
      fun rest h => (hX rest).2 (hx rest h)⟩
    all_goals simp

/-- **Replies that fit the buffer.** No byte is written outside it, unless a packet `m` asks for
more than 2045 bytes from an address in the memory on. -/
theorem repliesFit_iff :
    Avoids (· = .packetBound) (handle loc endianess (received payload c d)) g ↔
      ∀ rest, payload = Ascii.of 'm' :: rest →
        (packetAddress loc (packetData rest c d)).toNat < g.arm.mem.size.toNat →
        (packetSize loc (packetData rest c d)).toNat ≤ 2045 := by
  refine (avoids_handle (by simp) (by simp)).trans ⟨fun h => ?_, fun hm => ?_⟩
  · exact fun rest hrest => avoids_readMemory.1 (h.1 rest hrest) rfl
  · refine ⟨fun rest h => avoids_readMemory.2 fun _ => hm rest h,
      fun _ _ => avoids_readSingleRegister.2 ?_,
      fun _ _ => (avoids_writeGeneralRegisters (.inr ?_)).2 ?_,
      fun _ _ => (avoids_writeSingleRegister rfl).2 ⟨?_, ?_⟩,
      fun _ _ => (avoids_writeMemoryBinary (.inr ?_)).2 ⟨?_, ?_⟩⟩
    all_goals simp

/-- **No assertion fails**, unless a packet `p` or `P` is for a register number of 16 or more. -/
theorem assertions_hold_iff :
    Avoids (· = .assertion) (handle loc endianess (received payload c d)) g ↔
      (∀ rest, payload = Ascii.of 'p' :: rest →
        (atoi (packetData rest c d)).setWidth 8 < (16 : Byte)) ∧
      ∀ rest, payload = Ascii.of 'P' :: rest → Ascii.equals ∈ cString rest →
        writtenRegister loc (packetData rest c d) < 16 := by
  refine (avoids_handle (by simp) (by simp)).trans ⟨fun h => ?_, fun h => ?_⟩
  · obtain ⟨-, hp, -, hP, -⟩ := h
    refine ⟨fun rest h => avoids_readSingleRegister.1 (hp rest h) rfl, fun rest h hmem => ?_⟩
    rw [← cString_packetData rest c d] at hmem
    exact ((avoids_writeSingleRegister rfl).1 (hP rest h)).2 rfl hmem
  · obtain ⟨hp, hP⟩ := h
    refine ⟨fun _ _ => avoids_readMemory.2 ?_,
      fun rest h => avoids_readSingleRegister.2 fun _ => hp rest h,
      fun _ _ => (avoids_writeGeneralRegisters (.inr ?_)).2 ?_,
      fun rest h => (avoids_writeSingleRegister rfl).2 ⟨?_, fun _ hmem => hP rest h ?_⟩,
      fun _ _ => (avoids_writeMemoryBinary (.inr ?_)).2 ⟨?_, ?_⟩⟩
    case refine_5 =>
      rw [cString_packetData] at hmem
      exact hmem
    all_goals simp

end

/-- The packet `$P#50` has no `=`. -/
theorem readsPacket_fails : PacketToken (ascii "P") (Ascii.of '5') (Ascii.of '0') ∧
    DenoteSum (ascii "P") (Ascii.of '5') (Ascii.of '0') ∧
    ¬ Avoids (fun e => e = .pastEnd ∨ e = .failedSearch) (handle GdbLocals.zero.strict 0
      (received (ascii "P") (Ascii.of '5') (Ascii.of '0'))) eightBytes := by
  refine ⟨⟨by decide, by decide, by decide⟩, rfl, fun ha => ?_⟩
  obtain ⟨-, -, -, hP, -⟩ := (avoids_handle (by simp) (by simp)).1 ha
  have hmem := ((avoids_writeSingleRegister rfl).1 (hP [] rfl)).1 (.inr rfl)
  exact absurd hmem (by decide)

/-- The packet `$m0,7fe#cb` asks for 2046 bytes. -/
theorem repliesFit_fails : PacketToken (ascii "m0,7fe") (Ascii.of 'c') (Ascii.of 'b') ∧
    DenoteSum (ascii "m0,7fe") (Ascii.of 'c') (Ascii.of 'b') ∧
    ¬ Avoids (· = .packetBound) (handle .zero 0
      (received (ascii "m0,7fe") (Ascii.of 'c') (Ascii.of 'b'))) eightBytes := by
  refine ⟨⟨by decide, by decide, by decide⟩, rfl, fun ha => ?_⟩
  obtain ⟨hm, -⟩ := (avoids_handle (by simp) (by simp)).1 ha
  have hsize := avoids_readMemory.1 (hm (ascii "0,7fe") rfl) rfl (by decide)
  exact absurd hsize (by decide)

/-- The packet `$p19#da` is for register 25, which is CPSR for GDB. -/
theorem assertions_hold_fails : PacketToken (ascii "p19") (Ascii.of 'd') (Ascii.of 'a') ∧
    DenoteSum (ascii "p19") (Ascii.of 'd') (Ascii.of 'a') ∧
    ¬ Avoids (· = .assertion) (handle .zero 0
      (received (ascii "p19") (Ascii.of 'd') (Ascii.of 'a'))) eightBytes := by
  refine ⟨⟨by decide, by decide, by decide⟩, rfl, fun ha => ?_⟩
  obtain ⟨-, hp, -⟩ := (avoids_handle (by simp) (by simp)).1 ha
  have hreg := avoids_readSingleRegister.1 (hp (ascii "19") rfl) rfl
  exact absurd hreg (by decide)

end Gdb

end ArmSimulator
