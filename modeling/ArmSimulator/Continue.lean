import ArmSimulator.Alignment
import ArmSimulator.Breakpoints
import ArmSimulator.HandlerRules

/-!
# Continuing to a stop point

`cont` steps until the PC is a breakpoint or a step returns an exception. The search of the table
finds the breakpoints that `Z` packets have set and no `z` packet has removed since, so that `cont`
returns after the first step that ends at a stop point (`Gdb.cont_firstStop`).
-/

namespace ArmSimulator

/-! ## The table in a session -/

/-- The table is the same, and so are the addresses in it. -/
structure SameTable (g g' : GdbData) : Prop where
  breakpoints : g'.breakpoints = g.breakpoints
  number : g'.breakpointsNumber = g.breakpointsNumber

section
variable {g g' : GdbData} (h : SameTable g g')
include h

/-- A table with the same entries keeps the invariant. -/
theorem SameTable.tableOk (hg : TableOk g) : TableOk g' where
  nonneg := h.number ▸ hg.nonneg
  le := h.number ▸ hg.le
  sorted := by
    rw [h.breakpoints, h.number]
    exact hg.sorted

/-- A table with the same entries has the same breakpoints. -/
theorem SameTable.addresses : g'.addresses = g.addresses := by
  rw [GdbData.addresses, h.breakpoints, h.number, GdbData.addresses]

end

namespace Gdb

open Fallible

/-- `type` of the breakpoint handlers. -/
def breakpointType (loc : GdbLocals) (data : List Byte) : Byte :=
  ((scanHexes 3 data)[0]?.map (BitVec.setWidth 8)).getD loc.type

/-- `address` of the breakpoint handlers. -/
def breakpointAddress (loc : GdbLocals) (data : List Byte) : Word :=
  (scanHexes 3 data)[1]?.getD loc.address

/-- A `Z` or a `z` packet. -/
inductive BreakpointPacket where
  | set (loc : GdbLocals) (data : List Byte)
  | remove (loc : GdbLocals) (data : List Byte)

/-- The handler of a packet. -/
def BreakpointPacket.run : BreakpointPacket → HandlerM Unit
  | .set loc data => setBreakpoint loc data
  | .remove loc data => removeBreakpoint loc data

/-- The change of the table that it asks for. -/
def BreakpointPacket.call : BreakpointPacket → BreakpointCall
  | .set loc data => .add (breakpointAddress loc data)
  | .remove loc data => .remove (breakpointAddress loc data)

/-- The transition of a packet that is answered by the bytes given. -/
def PacketStep (g : GdbData) (e : BreakpointPacket × List Byte) (g' : GdbData) : Prop :=
  StateT.run e.1.run g = .ok ((), g') ∧ g'.sent = g.sent ++ e.2

/-- What a packet says of its address, if the answer is `OK`: that it is a breakpoint, or that it is
not. -/
def BreakpointPacket.outcome (e : BreakpointPacket × List Byte) : List (Word × Bool) :=
  if e.2 = frame (ascii "OK") then BreakpointCall.outcome (e.1.call, 1) else []

/-- The address is a breakpoint that was not removed since. -/
def IsBreakpoint (packets : List (BreakpointPacket × List Byte)) (address : Word) : Prop :=
  lastWrite (packets.flatMap BreakpointPacket.outcome) address = some true

instance (packets : List (BreakpointPacket × List Byte)) (address : Word) :
    Decidable (IsBreakpoint packets address) := inferInstanceAs (Decidable (_ = _))

/-! ## What the packets leave -/

section
variable {loc : GdbLocals} {data reply : List Byte} {g g' : GdbData}

/-- A call on the breakpoints sends nothing. -/
theorem sent_breakpointCall (call : BreakpointCall) : Prog.Preserves GdbData.sent call.run := by
  cases call with
  | add address => exact preserves_gdbAddBreakpoint (fun _ _ _ => rfl) (fun _ _ => rfl) address
  | remove address =>
    exact preserves_gdbRemoveBreakpoint (fun _ _ _ => rfl) (fun _ _ => rfl) address

/-- The bytes that an answer sends. -/
theorem answer_eq {l : List Char} (hlen : l.length ≤ 4091)
    (hne : l.all (Ascii.of · ≠ Ascii.nul) = true)
    (h : (sendData (ascii (String.ofList l))).run g = .ok ((), g'))
    (hs : g'.sent = g.sent ++ reply) :
    reply = frame (ascii (String.ofList l)) ∧ SameTable g g' := by
  rw [run_sendText hlen hne] at h
  cases h
  exact ⟨(List.append_cancel_left hs).symm, rfl, rfl⟩

/-- A handler of breakpoints that returns has made the change, if it says so, or left the table. -/
theorem changeBreakpoint_eq_ok {change : Word → GdbM Int} {l : List Char} {call : BreakpointCall}
    (hcall : change (breakpointAddress loc data) = call.run)
    (hlen : l.length ≤ 4091) (hne : l.all (Ascii.of · ≠ Ascii.nul) = true)
    (herror : frame (ascii (String.ofList l)) ≠ frame (ascii "OK"))
    (h : (changeBreakpoint loc change (ascii (String.ofList l)) data).run g = .ok ((), g'))
    (hs : g'.sent = g.sent ++ reply) :
    (reply ≠ frame (ascii "OK") ∧ SameTable g g') ∨
      ∃ r g₁, BreakpointStep g (call, r) g₁ ∧ SameTable g₁ g' ∧
        (reply = frame (ascii "OK") ↔ r ≠ 0) := by
  unfold changeBreakpoint at h
  dsimp only at h
  split_ifs at h with htype
  · obtain ⟨rfl, hsame⟩ := answer_eq (by decide) (by decide) h hs
    exact .inl ⟨by decide, hsame⟩
  · obtain ⟨r, g₁, hrun, h⟩ := run_bind_eq_ok.1 h
    have hstep : BreakpointStep g (call, r) g₁ := by
      rw [BreakpointStep, ← hcall]
      exact run_ofProg_eq_ok hrun
    have hsent : g₁.sent = g.sent := sent_breakpointCall call _ _ _ hstep
    rw [← hsent] at hs
    split_ifs at h with hr
    · obtain ⟨rfl, hsame⟩ := answer_eq (by decide) (by decide) h hs
      exact .inr ⟨r, g₁, hstep, hsame, iff_of_true rfl hr⟩
    · obtain ⟨rfl, hsame⟩ := answer_eq hlen hne h hs
      exact .inr ⟨r, g₁, hstep, hsame, iff_of_false herror hr⟩

/-- A packet changes the table as its answer says. -/
theorem PacketStep.updates {e : BreakpointPacket × List Byte} (hstep : PacketStep g e g')
    (hg : TableOk g) : Updates g (BreakpointPacket.outcome e) g' := by
  obtain ⟨packet, reply⟩ := e
  obtain ⟨hrun, hs⟩ := hstep
  have hcase : (reply ≠ frame (ascii "OK") ∧ SameTable g g') ∨
      ∃ r g₁, BreakpointStep g (packet.call, r) g₁ ∧ SameTable g₁ g' ∧
        (reply = frame (ascii "OK") ↔ r ≠ 0) := by
    cases packet with
    | set loc data =>
      exact changeBreakpoint_eq_ok rfl (by decide) (by decide) (by decide) hrun hs
    | remove loc data =>
      exact changeBreakpoint_eq_ok rfl (by decide) (by decide) (by decide) hrun hs
  rcases hcase with ⟨hreply, hsame⟩ | ⟨r, g₁, hcall, hsame, hreply⟩
  · have hnil : BreakpointPacket.outcome (packet, reply) = [] := if_neg hreply
    refine ⟨hsame.tableOk hg, fun address => ?_⟩
    rw [hnil, hsame.addresses]
    simp
  · have houtcome : BreakpointPacket.outcome (packet, reply) =
        BreakpointCall.outcome (packet.call, r) := by
      rcases (hcall.result hg).2 with ⟨rfl, -⟩ | ⟨rfl, -⟩
      · exact if_pos (hreply.2 (by decide))
      · exact (if_neg fun h => absurd (hreply.1 h) (by decide)).trans
          packet.call.outcome_zero.symm
    obtain ⟨hok, hset⟩ := hcall.table hg
    rw [houtcome]
    exact ⟨hsame.tableOk hok, fun address => hsame.addresses ▸ hset address⟩

end

/-- The breakpoints are the addresses in the table that the packets have built. -/
theorem mem_addresses_iff {g g' : GdbData} {packets : List (BreakpointPacket × List Byte)}
    (hempty : g.breakpointsNumber = 0) (hpackets : Run PacketStep g packets g') :
    TableOk g' ∧ ∀ address, address ∈ g'.addresses ↔ IsBreakpoint packets address := by
  have h := updates_of_run hpackets (.of_empty hempty) PacketStep.updates
  exact ⟨h.1, h.mem_iff hempty⟩

/-! ## The loop -/

section
variable (loc : GdbLocals) (endianess : Byte)

/-- The transition of the `i`-th single step. -/
def SingleStep (g : GdbData) (i : Nat) (g' : GdbData) : Prop :=
  (singleStep loc endianess i).run g = .ok ((), g')

/-- The PC is in the table, or the step has returned an exception. -/
def Stops (g : GdbData) : Prop := g.arm.pc ∈ g.addresses ∨ g.targetException ≠ 0

section
variable {loc endianess}

/-- A single step is a step of the processor whose result is stored. -/
theorem singleStep_iff {i : Nat} {g g' : GdbData} {targetException : Byte} {arm : ArmCore}
    (h : (armStep endianess (loc.step i)).run g.arm = some (targetException, arm)) :
    SingleStep loc endianess g i g' ↔ g' = { g with arm, targetException } := by
  rw [SingleStep, run_singleStep h]
  constructor
  · intro h
    cases h
    rfl
  · rintro rfl
    rfl

end

/-- There is one step, which leaves the table. -/
theorem singleStep_total (i : Nat) (g : GdbData) :
    ∃ g₁, (∀ g', SingleStep loc endianess g i g' ↔ g' = g₁) ∧ SameTable g g₁ := by
  obtain ⟨targetException, arm, hrun, -⟩ := armStep_run endianess (loc.step i) g.arm
  exact ⟨{ g with arm, targetException }, fun _ => singleStep_iff hrun, rfl, rfl⟩

variable {loc endianess}

/-- The search tells whether to stop. -/
theorem run_search {g : GdbData} (hg : TableOk g) :
    ∃ r, (ofProg .tableBound (gdbFindBreakpoint (registersRead g.arm.reg 15
        (registersGetMode g.arm.reg))) : HandlerM Int).run g = .ok (r, g) ∧
      (r ≠ -1 ↔ g.arm.pc ∈ g.addresses) := by
  have hpc : registersRead g.arm.reg 15 (registersGetMode g.arm.reg) = g.arm.pc :=
    registersRead_pc _ _
  obtain ⟨r, hrun, hr⟩ := hg.run_gdbFindBreakpoint g.arm.pc
  rw [hpc]
  exact ⟨r, run_ofProg hrun, (not_congr hr.iff).trans not_not⟩

/-- **The loop** returns after the first step that ends where it stops, if that is within the
bound. -/
theorem run_contLoop_iff {g g' : GdbData} (hg : TableOk g) (i fuel : Nat) :
    (contLoop loc endianess i fuel).run g = .ok ((), g') ↔
      ∃ n, n ≤ fuel ∧ FirstStop (SingleStep loc endianess) Stops i g n g' := by
  induction fuel generalizing i g with
  | zero =>
    constructor
    · intro h
      cases h
    · rintro ⟨n, hn, h⟩
      exact absurd (h.pos.trans hn) (by decide)
  | succ fuel ih =>
    obtain ⟨g₁, hstep, hsame⟩ := singleStep_total loc endianess i g
    obtain ⟨r, hsearch, hr⟩ := run_search (hsame.tableOk hg)
    have hstops : r ≠ -1 ∨ g₁.targetException ≠ 0 ↔ Stops g₁ := or_congr_left hr
    rw [contLoop, run_bind_ok ((hstep g₁).2 rfl), run_get_bind, run_bind_ok hsearch]
    by_cases hs : Stops g₁
    · rw [if_pos (hstops.2 hs)]
      simp only [firstStop_iff_of_stop hstep hs]
      constructor
      · intro h
        cases h
        exact ⟨1, Nat.le_add_left 1 fuel, rfl, rfl⟩
      · rintro ⟨n, -, -, rfl⟩
        rfl
    · rw [if_neg (mt hstops.1 hs), ih (hsame.tableOk hg)]
      constructor
      · rintro ⟨n, hn, h⟩
        exact ⟨n + 1, Nat.succ_le_succ hn, (firstStop_succ_iff hstep hs).2 h⟩
      · rintro ⟨n, hn, h⟩
        obtain ⟨n, rfl⟩ := Nat.exists_eq_add_of_le' h.pos
        exact ⟨n, Nat.le_of_succ_le_succ hn, (firstStop_succ_iff hstep hs).1 h⟩

/-- A run of single steps leaves the table. -/
theorem sameTable_of_run {g g' : GdbData} {is : List Nat}
    (h : Run (SingleStep loc endianess) g is g') : SameTable g g' := by
  refine h.invariant (I := SameTable g) (fun {g₁ i g₂} hstep hg => ?_) ⟨rfl, rfl⟩
  obtain ⟨g₃, huniq, hsame⟩ := singleStep_total loc endianess i g₁
  obtain rfl := (huniq g₂).1 hstep
  exact ⟨hsame.breakpoints.trans hg.breakpoints, hsame.number.trans hg.number⟩

end

/-! ## Continuing -/

/-- A stop point: the PC is a breakpoint, or the step has returned an exception. -/
def StopPoint (packets : List (BreakpointPacket × List Byte)) (g : GdbData) : Prop :=
  IsBreakpoint packets g.arm.pc ∨ g.targetException ≠ 0

section
variable (loc : GdbLocals) (endianess : Byte) (data : List Byte)

/-- `cont` returns after `n` steps: within `n` rounds of its loop, and not within fewer. -/
def ContReturns (g : GdbData) (n : Nat) (g' : GdbData) : Prop :=
  (cont { loc with fuel := n } endianess data).run g = .ok ((), g') ∧
    ∀ m < n, ∀ g'', (cont { loc with fuel := m } endianess data).run g ≠ .ok ((), g'')

/-- With a bound for the steps, it returns if the first stop point comes within the bound. -/
theorem run_cont_iff {g₀ g₁ g g' : GdbData} {packets : List (BreakpointPacket × List Byte)}
    (hempty : g₀.breakpointsNumber = 0) (hpackets : Run PacketStep g₀ packets g₁)
    (htable : SameTable g₁ g) (fuel : Nat) :
    (cont { loc with fuel } endianess data).run g = .ok ((), g') ↔
      ∃ n gₙ, n ≤ fuel ∧ FirstStop (SingleStep loc endianess) (StopPoint packets) 0 g n gₙ ∧
        sendStopReason.run gₙ = .ok ((), g') := by
  obtain ⟨hok, hset⟩ := mem_addresses_iff hempty hpackets
  have hpoint : ∀ {is gₙ}, Run (SingleStep loc endianess) g is gₙ →
      (Stops gₙ ↔ StopPoint packets gₙ) := by
    intro is gₙ hrun
    rw [Stops, (sameTable_of_run hrun).addresses, htable.addresses, hset]
    rfl
  have hloop : ∀ gₙ, (contLoop { loc with fuel } endianess 0 fuel).run g = .ok ((), gₙ) ↔
      ∃ n, n ≤ fuel ∧ FirstStop (SingleStep loc endianess) (StopPoint packets) 0 g n gₙ := by
    intro gₙ
    rw [run_contLoop_iff (htable.tableOk hok)]
    refine exists_congr fun n => and_congr_right fun _ => ⟨fun h => h.congr hpoint, fun h => ?_⟩
    exact h.congr fun hrun => (hpoint hrun).symm
  rw [cont, run_bind_eq_ok]
  constructor
  · rintro ⟨⟨⟩, gₙ, h, hreply⟩
    obtain ⟨n, hn, hfirst⟩ := (hloop gₙ).1 h
    exact ⟨n, gₙ, hn, hfirst, hreply⟩
  · rintro ⟨n, gₙ, hn, hfirst, hreply⟩
    exact ⟨(), gₙ, (hloop gₙ).2 ⟨n, hn, hfirst⟩, hreply⟩

/-- **Continuing.** `cont` returns after `n` steps if and only if the `n`-th is the first one that
ends at a stop point, and only the answer is sent after it. -/
theorem cont_firstStop {g₀ g₁ g g' : GdbData} {packets : List (BreakpointPacket × List Byte)}
    (hempty : g₀.breakpointsNumber = 0) (hpackets : Run PacketStep g₀ packets g₁)
    (htable : SameTable g₁ g) (n : Nat) :
    ContReturns loc endianess data g n g' ↔
      ∃ gₙ, FirstStop (SingleStep loc endianess) (StopPoint packets) 0 g n gₙ ∧
        sendStopReason.run gₙ = .ok ((), g') := by
  have hiff : ∀ {g' : GdbData} (fuel : Nat),
      (cont { loc with fuel } endianess data).run g = .ok ((), g') ↔ _ :=
    run_cont_iff loc endianess data hempty hpackets htable
  constructor
  · rintro ⟨hrun, hleast⟩
    obtain ⟨m, gₙ, hm, hfirst, hreply⟩ := (hiff n).1 hrun
    rcases Nat.lt_or_eq_of_le hm with hlt | rfl
    · exact absurd ((hiff m).2 ⟨m, gₙ, Nat.le_refl m, hfirst, hreply⟩) (hleast m hlt g')
    · exact ⟨gₙ, hfirst, hreply⟩
  · rintro ⟨gₙ, hfirst, hreply⟩
    refine ⟨(hiff n).2 ⟨n, gₙ, Nat.le_refl n, hfirst, hreply⟩, fun m hm g'' hrun => ?_⟩
    obtain ⟨k, gₖ, hk, hfirst', -⟩ := (hiff m).1 hrun
    exact absurd (hfirst.le hfirst') (Nat.not_le.2 (Nat.lt_of_le_of_lt hk hm))

end

/-! ### A program that runs to a breakpoint -/

/-- `MOV r0, r0` three times, before any packet. -/
def threeMoves : GdbData :=
  gdbInitData (.initial 0x13 (.ofWords [0xE1A00000, 0xE1A00000, 0xE1A00000])) (fun _ => 0)
    fun _ => 0

/-- The packet that sets a breakpoint at the third of them, and its answer. -/
def breakThird : BreakpointPacket × List Byte :=
  (.set .zero (ascii "0,8,4" ++ [Ascii.nul]), frame (ascii "OK"))

/-- The packet is accepted, and leaves the target. -/
theorem run_breakThird :
    ∃ g, Run PacketStep threeMoves [breakThird] g ∧ g.arm = threeMoves.arm := by
  have htype : breakpointType .zero (ascii "0,8,4" ++ [Ascii.nul]) = 0 := by decide
  have haddress : breakpointAddress .zero (ascii "0,8,4" ++ [Ascii.nul]) = 8 := by decide
  obtain ⟨r, g₁, hadd, -, ⟨-, rfl, -⟩ | ⟨hfull, -⟩⟩ :=
    (TableOk.of_empty (g := threeMoves) rfl).run_gdbAddBreakpoint 8
  · have hkeep : (g₁.arm, g₁.sent) = (threeMoves.arm, threeMoves.sent) :=
      preserves_gdbAddBreakpoint (f := fun g => (g.arm, g.sent)) (fun _ _ _ => rfl)
        (fun _ _ => rfl) 8 _ _ _ hadd
    obtain ⟨harm, hsent⟩ := Prod.mk.inj hkeep
    have hrun : (setBreakpoint .zero (ascii "0,8,4" ++ [Ascii.nul])).run threeMoves =
        (sendData (ascii "OK")).run g₁ := by
      rw [setBreakpoint, changeBreakpoint]
      refine (congrArg (StateT.run · threeMoves) (if_neg (not_not.2 htype))).trans ?_
      exact run_bind_ok (run_ofProg (haddress ▸ hadd))
    refine ⟨_, .single ⟨hrun.trans (run_sendText (by decide) (by decide)), ?_⟩, harm⟩
    exact congrArg (· ++ _) hsent
  · exact absurd hfull (by decide)

/-- The first two steps return 0 and leave the PC at 4 and at 8. -/
theorem armStep_threeMoves :
    ∃ p p', (armStep 1 .zero).run threeMoves.arm = some (0, p) ∧ p.pc = 4 ∧
      (armStep 1 .zero).run p = some (0, p') ∧ p'.pc = 8 := by
  have heval : ((armStep 1 .zero).run threeMoves.arm).map (fun r => (r.1, r.2.pc,
      ((armStep 1 .zero).run r.2).map fun r' => (r'.1, r'.2.pc))) = some (0, 4, some (0, 8)) := by
    decide
  obtain ⟨⟨c, p⟩, hrun, hr⟩ := Option.map_eq_some_iff.1 heval
  obtain ⟨rfl, hpc, hnext⟩ : c = 0 ∧ p.pc = 4 ∧
      ((armStep 1 .zero).run p).map (fun r' => (r'.1, r'.2.pc)) = some (0, 8) := by
    simpa using hr
  obtain ⟨⟨c', p'⟩, hrun', hr'⟩ := Option.map_eq_some_iff.1 hnext
  obtain ⟨rfl, hpc'⟩ := Prod.mk.inj hr'
  exact ⟨p, p', hrun, hpc, hrun', hpc'⟩

/-- `cont` returns after two steps. -/
theorem cont_firstStop_threeMoves :
    ∃ g g', Run PacketStep threeMoves [breakThird] g ∧ ContReturns .zero 1 [] g 2 g' ∧
      g'.arm.pc = 8 := by
  obtain ⟨g, hpackets, harm⟩ := run_breakThird
  obtain ⟨p, p', hrun, hpc, hrun', hpc'⟩ := armStep_threeMoves
  let g₁ : GdbData := { g with arm := p, targetException := 0 }
  let g₂ : GdbData := { g with arm := p', targetException := 0 }
  have hstep : ∀ s, SingleStep .zero 1 g 0 s ↔ s = g₁ := fun s => singleStep_iff (harm ▸ hrun)
  have hstep' : ∀ s, SingleStep .zero 1 g₁ 1 s ↔ s = g₂ := fun s => singleStep_iff hrun'
  have hgoes : ¬ StopPoint [breakThird] g₁ := by
    show ¬ (IsBreakpoint [breakThird] p.pc ∨ (0 : Byte) ≠ 0)
    rw [hpc]
    decide
  have hstops : StopPoint [breakThird] g₂ := by
    show IsBreakpoint [breakThird] p'.pc ∨ (0 : Byte) ≠ 0
    rw [hpc']
    decide
  have hfirst : FirstStop (SingleStep .zero 1) (StopPoint [breakThird]) 0 g 2 g₂ :=
    (firstStop_succ_iff hstep hgoes).2 ((firstStop_iff_of_stop hstep' hstops).2 ⟨rfl, rfl⟩)
  have hreply : sendStopReason.run g₂ = _ :=
    run_sendText (l := "S05".toList) (by decide) (by decide)
  have hreturns := (cont_firstStop .zero 1 [] rfl hpackets ⟨rfl, rfl⟩ 2).2 ⟨g₂, hfirst, hreply⟩
  exact ⟨g, _, hpackets, hreturns, hpc'⟩

end Gdb

end ArmSimulator
