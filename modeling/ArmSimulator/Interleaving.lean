import ArmSimulator.Lib.Run
import ArmSimulator.Listeners
import ArmSimulator.Retransmission

/-!
# The interleaving of the listeners

However the steps of the two threads interleave, and into whichever steps the calls are split that
they make with the lock, what they do is what one thread would do that takes one event of the
scanner or one interrupt after the other (`listeners_serialized`, `listeners_iff`). No packet is
handled twice, neither packets nor interrupts overtake one another, and none is lost before the
process ends.
-/

namespace ArmSimulator

open Relation

/-! ## Serial sessions -/

/-- What happens to the simulator: an event of the scanner, or the byte of an interrupt. -/
inductive SimulatorEvent where
  | scanner (event : ScannerEvent)
  | interrupt (irq : Byte)
  deriving DecidableEq, Repr

/-- What one thread would do on an event; the uninitialised locals hold anything. There is no step
where the process ends. -/
inductive SimulatorStep (endianess : Byte) (data : ParserData) : SimulatorEvent → ParserData → Prop
  | scanner {event : ScannerEvent} {data' : ParserData} (loc : Gdb.GdbLocals) (given₀ : Word)
      (h : (event.action (Gdb.table loc endianess) given₀).run data = some ((), data'))
      (hwrites : ¬ event.WriteFails given₀ data) :
      SimulatorStep endianess data (.scanner event) data'
  | interrupt {irq result : Byte} {arm : ArmCore} (loc : Locals)
      (h : (armException endianess loc irq).run data.gdb.arm = some (result, arm)) :
      SimulatorStep endianess data (.interrupt irq) (data.withArm arm)

/-- The events of the scanner, in their order. -/
def scannerEvents (ls : List SimulatorEvent) : List ScannerEvent :=
  ls.filterMap fun
    | .scanner event => some event
    | .interrupt _ => none

/-- The interrupts, in their order. -/
def interrupts (ls : List SimulatorEvent) : List Byte :=
  ls.filterMap fun
    | .scanner _ => none
    | .interrupt irq => some irq

section
variable (ls : List SimulatorEvent) (event : ScannerEvent) (irq : Byte)

/-- An event of the scanner is the last one of its session. -/
@[simp] theorem scannerEvents_scanner :
    scannerEvents (ls ++ [.scanner event]) = scannerEvents ls ++ [event] :=
  List.filterMap_append

/-- An interrupt is no event of the scanner. -/
@[simp] theorem scannerEvents_interrupt :
    scannerEvents (ls ++ [.interrupt irq]) = scannerEvents ls :=
  List.filterMap_append.trans (List.append_nil _)

/-- An event of the scanner is no interrupt. -/
@[simp] theorem interrupts_scanner : interrupts (ls ++ [.scanner event]) = interrupts ls :=
  List.filterMap_append.trans (List.append_nil _)

/-- An interrupt is the last one of its session. -/
@[simp] theorem interrupts_interrupt :
    interrupts (ls ++ [.interrupt irq]) = interrupts ls ++ [irq] := List.filterMap_append

end

/-! ## The processor -/

section
variable {data data' : ParserData} {packet : Option (List Byte)} {given₀ : Word}
  {event : ScannerEvent}

/-- The data have the processor that was put into them. -/
@[simp] theorem ParserData.withArm_arm (data : ParserData) (arm : ArmCore) :
    (data.withArm arm).gdb.arm = arm := rfl

/-- The processor that is put in last replaces the one before. -/
@[simp] theorem ParserData.withArm_withArm (data : ParserData) (arm arm' : ArmCore) :
    (data.withArm arm).withArm arm' = data.withArm arm' := rfl

/-- The data stay as they are if their own processor is put in. -/
@[simp] theorem ParserData.withArm_self (data : ParserData) :
    data.withArm data.gdb.arm = data := rfl

/-- With another processor an event does the same up to the lock. -/
theorem run_beforeLock_withArm
    (h : (event.beforeLock supported given₀).run data = some (packet, data')) (arm : ArmCore) :
    (event.beforeLock supported given₀).run (data.withArm arm) =
      some (packet, data'.withArm arm) := by
  rw [ignoresArm_beforeLock supported given₀ event arm data, h]
  rfl

/-- Up to the lock an event leaves the processor as it is. -/
theorem run_beforeLock_arm
    (h : (event.beforeLock supported given₀).run data = some (packet, data')) :
    data'.gdb.arm = data.gdb.arm := by
  have hsame := run_beforeLock_withArm h data.gdb.arm
  rw [ParserData.withArm_self, h] at hsame
  have heq : data' = data'.withArm data.gdb.arm := congrArg Prod.snd (Option.some.inj hsame)
  rw [heq]
  rfl

/-- With another processor the same writes fail. -/
theorem writeFails_withArm (arm : ArmCore) :
    event.WriteFails given₀ (data.withArm arm) ↔ event.WriteFails given₀ data := by
  refine and_congr_right fun _ =>
    ⟨fun ⟨packet, data', h, hne⟩ => ?_, fun ⟨packet, data', h, hne⟩ => ?_⟩
  · have h' := run_beforeLock_withArm h data.gdb.arm
    rw [ParserData.withArm_withArm, ParserData.withArm_self] at h'
    exact ⟨packet, _, h', hne⟩
  · exact ⟨packet, _, run_beforeLock_withArm h arm, hne⟩

/-- An event that needs no lock is a step of the session. -/
theorem simulatorStep_of_beforeLock {endianess : Byte}
    (h : (event.beforeLock supported given₀).run data = some (none, data'))
    (hwrites : ¬ event.WriteFails given₀ data) :
    SimulatorStep endianess data (.scanner event) data' := by
  refine .scanner .zero given₀ ?_ hwrites
  rw [ScannerEvent.action_eq (isSome_table .zero endianess), Prog.run_bind_of h]
  rfl

/-- An event that needs the lock is a step of the session with its handler. -/
theorem simulatorStep_of_handler {endianess : Byte} {loc : Gdb.GdbLocals} {packet : List Byte}
    {data₁ : ParserData}
    (h : (event.beforeLock supported given₀).run data = some (some packet, data₁))
    (hwrites : ¬ event.WriteFails given₀ data)
    (hcall : (onGdb (callHandler (Gdb.table loc endianess) packet)).run data₁ =
      some ((), data')) : SimulatorStep endianess data (.scanner event) data' := by
  refine .scanner loc given₀ ?_ hwrites
  rw [ScannerEvent.action_eq (isSome_table loc endianess), Prog.run_bind_of h]
  exact hcall

end

/-- The end of the input needs no lock. -/
theorem ne_endOfFile {data data' : ParserData} {packet : List Byte} {given₀ : Word}
    {event : ScannerEvent}
    (h : (event.beforeLock supported given₀).run data = some (some packet, data')) :
    event ≠ .endOfFile := by
  rintro rfl
  obtain ⟨_, data₁, -, hrest⟩ := Prog.run_bind_eq_some.1
    (show (handleError >>= fun _ => pure none).run data = some (some packet, data') from h)
  cases hrest

/-! ## From the threads to a session -/

/-- The events that are not yet taken to be done by `gdb_listener`, when the session has come to
`data`: one is under way if its packet waits for the lock. -/
inductive Pending (data : ParserData) : GdbListener → List ScannerEvent → Prop
  | rest {d : ParserData} {events : List ScannerEvent} {returned : Bool}
      (h : d.withArm data.gdb.arm = data) : Pending data ⟨d, events, none, returned⟩ events
  | packet {d : ParserData} {event : ScannerEvent} {events : List ScannerEvent}
      {packet : List Byte} {returned : Bool} {given₀ : Word}
      (h : (event.beforeLock supported given₀).run data =
        some (some packet, d.withArm data.gdb.arm))
      (hwrites : ¬ event.WriteFails given₀ data) :
      Pending data ⟨d, events, some packet, returned⟩ (event :: events)

/-- The interrupts that are not yet taken. -/
def IrqListener.waiting (l : IrqListener) : List Byte := l.irq.toList ++ l.input

/-- An interrupt does not matter to `gdb_listener`. -/
theorem Pending.withArm {data : ParserData} {l : GdbListener} {events : List ScannerEvent}
    (h : Pending data l events) (arm : ArmCore) : Pending (data.withArm arm) l events := by
  cases h with
  | rest h => exact .rest (h ▸ rfl)
  | packet h hwrites =>
    exact .packet (run_beforeLock_withArm h arm) (mt (writeFails_withArm arm).1 hwrites)

/-! ## Serial steps of the listeners -/

/-- A step of one listener, while the other one is outside the lock. -/
inductive ListenersStep (endianess : Byte) : ListenersState → ListenersState → Prop
  | gdbMove {gdb gdb' : GdbListener} {irq : IrqListener} {arm : ArmCore} (h : GdbMove gdb gdb') :
      ListenersStep endianess ⟨gdb, irq, arm⟩ ⟨gdb', irq, arm⟩
  | irqMove {gdb : GdbListener} {irq irq' : IrqListener} {arm : ArmCore} (h : IrqMove irq irq') :
      ListenersStep endianess ⟨gdb, irq, arm⟩ ⟨gdb, irq', arm⟩
  | handle {loc : Gdb.GdbLocals} {data data' : ParserData} {events : List ScannerEvent}
      {packet : List Byte} {returned : Bool} {irq : IrqListener} {arm : ArmCore}
      (h : (onGdb (callHandler (Gdb.table loc endianess) packet)).run (data.withArm arm) =
        some ((), data')) :
      ListenersStep endianess ⟨⟨data, events, some packet, returned⟩, irq, arm⟩
        ⟨⟨data', events, none, returned⟩, irq, data'.gdb.arm⟩
  | exception {loc : Locals} {gdb : GdbListener} {irq result : Byte} {input : List Byte}
      {arm arm' : ArmCore} (h : (armException endianess loc irq).run arm = some (result, arm')) :
      ListenersStep endianess ⟨gdb, ⟨some irq, input⟩, arm⟩ ⟨gdb, ⟨none, input⟩, arm'⟩

section
variable {endianess : Byte} {S : Splitting endianess}

/-- A handler that returns has been given enough rounds. -/
theorem enough_of_returns {loc : Gdb.GdbLocals} {data data' : ParserData} {packet : List Byte}
    (h : (onGdb (callHandler (Gdb.table loc endianess) packet)).run data = some ((), data')) :
    Enough endianess loc packet data.gdb := by
  obtain ⟨g, hcall, -⟩ := onGdb_eq_some h
  rw [Gdb.callHandler_table] at hcall
  have hrun := Fallible.run_toProg_eq_some hcall
  intro hunfinished
  cases hrun.symm.trans hunfinished

/-- A handler, with the lock, is a serial step of the listeners. -/
theorem gdbCritical_run {l l' : GdbListener} {r : Resume ArmCore GdbListener} {irq : IrqListener}
    {arm arm' : ArmCore} (h : GdbCritical S l arm r)
    (hr : StateT.run r.run arm = some (l', arm')) :
    ListenersStep endianess ⟨l, irq, arm⟩ ⟨l', irq, arm'⟩ := by
  obtain @⟨loc, data, events, packet, returned, _, -⟩ := h
  rw [Resume.run_bind] at hr
  obtain ⟨data', _, hhandle, hret⟩ := Prog.run_bind_eq_some.1 hr
  cases hret
  rw [S.run_handle] at hhandle
  obtain ⟨⟨⟨⟩, _⟩, hrun, he⟩ := Option.map_eq_some_iff.1 hhandle
  cases he
  exact .handle hrun

/-- An interrupt, with the lock, is a serial step of the listeners. -/
theorem irqCritical_run {l l' : IrqListener} {r : Resume ArmCore IrqListener} {gdb : GdbListener}
    {arm arm' : ArmCore} (h : IrqCritical S l arm r)
    (hr : StateT.run r.run arm = some (l', arm')) :
    ListenersStep endianess ⟨gdb, l, arm⟩ ⟨gdb, l', arm'⟩ := by
  obtain @⟨loc, irq, input⟩ := h
  rw [Resume.run_bind] at hr
  obtain ⟨result, _, hexception, hret⟩ := Prog.run_bind_eq_some.1 hr
  cases hret
  rw [S.run_exception] at hexception
  exact .exception hexception

/-- A step of `gdb_listener` leaves `irq_listener` where it is. -/
theorem listenersAt_gdb (X : ListenersState) (gdb : GdbListener) (arm : ArmCore) :
    { own := Function.update (listenersAt S X).own .gdb gdb, shared := arm } =
      listenersAt S ⟨gdb, X.irq, arm⟩ := by
  refine congrArg (fun own => Threads.Serial.mk own arm) (funext fun i => ?_)
  cases i with
  | gdb => rfl
  | irq => rfl

/-- A step of `irq_listener` leaves `gdb_listener` where it is. -/
theorem listenersAt_irq (X : ListenersState) (irq : IrqListener) (arm : ArmCore) :
    { own := Function.update (listenersAt S X).own .irq irq, shared := arm } =
      listenersAt S ⟨X.gdb, irq, arm⟩ := by
  refine congrArg (fun own => Threads.Serial.mk own arm) (funext fun i => ?_)
  cases i with
  | gdb => rfl
  | irq => rfl

/-- **The serial steps of the threads** are the steps of the listeners. -/
theorem serialStep_iff {X : ListenersState} {Z : (listeners S).Serial} :
    Threads.SerialStep (listenersAt S X) Z ↔
      ∃ X', ListenersStep endianess X X' ∧ Z = listenersAt S X' := by
  constructor
  · intro h
    cases h with
    | @move i own' hmove =>
      cases i with
      | gdb => exact ⟨_, .gdbMove hmove, listenersAt_gdb X own' X.arm⟩
      | irq => exact ⟨_, .irqMove hmove, listenersAt_irq X own' X.arm⟩
    | @critical i r own' arm hcritical hr =>
      cases i with
      | gdb => exact ⟨_, gdbCritical_run hcritical hr, listenersAt_gdb X own' arm⟩
      | irq => exact ⟨_, irqCritical_run hcritical hr, listenersAt_irq X own' arm⟩
  · rintro ⟨X', h, rfl⟩
    cases h with
    | @gdbMove gdb gdb' irq arm h =>
      rw [← listenersAt_gdb ⟨gdb, irq, arm⟩ gdb' arm]
      exact .move (i := Listener.gdb) h
    | @irqMove gdb irq irq' arm h =>
      rw [← listenersAt_irq ⟨gdb, irq, arm⟩ irq' arm]
      exact .move (i := Listener.irq) h
    | @handle loc data data' events packet returned irq arm h =>
      have hhandle : StateT.run (S.handle loc data packet).run arm =
          some (data', data'.gdb.arm) := by
        rw [S.run_handle, h]
        rfl
      rw [← listenersAt_gdb ⟨⟨data, events, some packet, returned⟩, irq, arm⟩
        ⟨data', events, none, returned⟩ _]
      refine .critical (i := Listener.gdb) (GdbCritical.handle loc (enough_of_returns h)) ?_
      exact (congrFun (Resume.run_bind _ _) arm).trans (Prog.run_bind_of hhandle)
    | @exception loc gdb irq result input arm arm' h =>
      have hexception : StateT.run (S.exception loc irq).run arm = some (result, arm') := by
        rw [S.run_exception]
        exact h
      rw [← listenersAt_irq ⟨gdb, ⟨some irq, input⟩, arm⟩ ⟨none, input⟩ arm']
      refine .critical (i := Listener.irq) (IrqCritical.exception loc) ?_
      exact (congrFun (Resume.run_bind _ _) arm).trans (Prog.run_bind_of hexception)

/-- The serial runs of the two threads are the runs of the listeners. -/
theorem serialRun_iff {X : ListenersState} {Z : (listeners S).Serial} :
    ReflTransGen Threads.SerialStep (listenersAt S X) Z ↔
      ∃ X', ReflTransGen (ListenersStep endianess) X X' ∧ Z = listenersAt S X' := by
  constructor
  · intro h
    induction h with
    | refl => exact ⟨X, .refl, rfl⟩
    | tail _ hstep ih =>
      obtain ⟨X₁, hX₁, rfl⟩ := ih
      obtain ⟨X', hX', rfl⟩ := serialStep_iff.1 hstep
      exact ⟨X', hX₁.tail hX', rfl⟩
  · rintro ⟨X', h, rfl⟩
    induction h with
    | refl => exact .refl
    | tail _ hstep ih => exact ih.tail (serialStep_iff.2 ⟨_, hstep, rfl⟩)

end

/-! ## From the listeners to a session -/

section
variable {endianess : Byte} {data₀ : ParserData} {events₀ : List ScannerEvent} {input₀ : List Byte}

/-- A state of the listeners, and the session that leads to it. -/
structure Accounts (endianess : Byte) (data₀ : ParserData) (events₀ : List ScannerEvent)
    (input₀ : List Byte) (X : ListenersState) (ls : List SimulatorEvent) (data : ParserData)
    (events : List ScannerEvent) : Prop where
  run : Run (SimulatorStep endianess) data₀ ls data
  arm : data.gdb.arm = X.arm
  gdb : Pending data X.gdb events
  events : events₀ = scannerEvents ls ++ events
  input : input₀ = interrupts ls ++ X.irq.waiting
  returned : X.gdb.returned = true ↔ .endOfFile ∈ scannerEvents ls

/-- The listeners start with the empty session. -/
theorem accounts_start : Accounts endianess data₀ events₀ input₀
    (listenersStart data₀ events₀ input₀) [] data₀ events₀ where
  run := .nil
  arm := rfl
  gdb := .rest rfl
  events := rfl
  input := rfl
  returned := iff_of_false Bool.false_ne_true List.not_mem_nil

/-- **One step** is an event that the session goes on with, or the beginning of one. -/
theorem Accounts.step {X X' : ListenersState} {ls : List SimulatorEvent} {data : ParserData}
    {events : List ScannerEvent} (h : Accounts endianess data₀ events₀ input₀ X ls data events)
    (hstep : ListenersStep endianess X X') :
    ∃ ls' data' events', Accounts endianess data₀ events₀ input₀ X' ls' data' events' := by
  obtain ⟨hrun, harm, hgdb, hevents, hinput, hreturned⟩ := h
  -- the events with one more that is done
  have hdone : ∀ {event rest}, events = event :: rest →
      events₀ = scannerEvents (ls ++ [.scanner event]) ++ rest := by
    rintro event rest rfl
    rw [hevents, scannerEvents_scanner, List.append_assoc]
    rfl
  have hmem : ∀ event, .endOfFile ∈ scannerEvents (ls ++ [.scanner event]) ↔
      .endOfFile ∈ scannerEvents ls ∨ event = .endOfFile := by
    intro event
    rw [scannerEvents_scanner, List.mem_append, List.mem_singleton, eq_comm]
  cases hstep with
  | irqMove hmove =>
    cases hmove
    exact ⟨ls, data, events, hrun, harm, hgdb, hevents, hinput, hreturned⟩
  | @exception loc gdb irq result input arm arm' hexception =>
    dsimp only at harm
    subst harm
    refine ⟨ls ++ [.interrupt irq], data.withArm arm', events,
      hrun.snoc (.interrupt loc hexception), rfl, hgdb.withArm arm', ?_, ?_, ?_⟩
    · rw [hevents, scannerEvents_interrupt]
    · rw [hinput, interrupts_interrupt, List.append_assoc]
      rfl
    · rw [scannerEvents_interrupt]
      exact hreturned
  | @gdbMove gdb gdb' irq arm hmove =>
    dsimp only at harm hinput hgdb
    subst harm
    obtain @⟨given₀, event, rest, d, d', packet, hbefore, hwrites⟩ := hmove
    obtain ⟨hd⟩ := hgdb
    have hbefore' := run_beforeLock_withArm hbefore data.gdb.arm
    have hwrites' := mt (writeFails_withArm data.gdb.arm).1 hwrites
    rw [hd] at hbefore' hwrites'
    -- the listener has not returned before this event
    have hopen : .endOfFile ∉ scannerEvents ls := fun hin => Bool.false_ne_true (hreturned.2 hin)
    cases packet with
    | none =>
      refine ⟨ls ++ [.scanner event], d'.withArm data.gdb.arm, rest,
        hrun.snoc (simulatorStep_of_beforeLock hbefore' hwrites'), rfl, .rest rfl, hdone rfl, ?_,
        ?_⟩
      · rw [hinput, interrupts_scanner]
      · rw [hmem, or_iff_right hopen]
        exact decide_eq_true_iff
    | some packet =>
      refine ⟨ls, data, event :: rest, hrun, rfl, .packet hbefore' hwrites', hevents, hinput, ?_⟩
      exact iff_of_false (fun he => ne_endOfFile hbefore (of_decide_eq_true he)) hopen
  | @handle loc d d' rest packet returned irq arm hcall =>
    dsimp only at harm hinput hgdb
    subst harm
    cases hgdb with
    | @packet _ event _ _ _ given₀ hbefore hwrites =>
      refine ⟨ls ++ [.scanner event], d', rest,
        hrun.snoc (simulatorStep_of_handler hbefore hwrites hcall), rfl, .rest rfl, hdone rfl, ?_,
        ?_⟩
      · rw [hinput, interrupts_scanner]
      · rw [hmem, or_iff_left (ne_endOfFile hbefore)]
        exact hreturned

/-- Every state that the listeners reach serially has a session that leads to it. -/
theorem Accounts.of_run {X : ListenersState}
    (h : ReflTransGen (ListenersStep endianess) (listenersStart data₀ events₀ input₀) X) :
    ∃ ls data events, Accounts endianess data₀ events₀ input₀ X ls data events := by
  induction h with
  | refl => exact ⟨[], data₀, events₀, accounts_start⟩
  | tail _ hstep ih =>
    obtain ⟨ls, data, events, hacc⟩ := ih
    exact hacc.step hstep

/-! ## From a session to the listeners -/

/-- The input ends once, if at all, and nothing comes after its end. -/
def OneInput (events : List ScannerEvent) : Prop := .endOfFile ∉ events.dropLast

/-- No event comes after the end of the input. -/
theorem OneInput.notMem {pre rest : List ScannerEvent} {event : ScannerEvent}
    (h : OneInput (pre ++ event :: rest)) : .endOfFile ∉ pre := by
  intro hmem
  rw [OneInput, List.dropLast_append_cons] at h
  exact h (List.mem_append_left _ hmem)

/-- The listeners can take an event of a session, where `gdb_listener` has not returned before an
event of the scanner. -/
theorem SimulatorStep.realised {data data' : ParserData} {l : SimulatorEvent}
    (h : SimulatorStep endianess data l data') {d : ParserData} (hd : d.withArm data.gdb.arm = data)
    (events : List ScannerEvent) (input : List Byte) {returned : Bool}
    (hreturned : scannerEvents [l] ≠ [] → returned = false) :
    ∃ d' returned', d'.withArm data'.gdb.arm = data' ∧
      (returned' = true ↔ returned = true ∨ .endOfFile ∈ scannerEvents [l]) ∧
      ReflTransGen (ListenersStep endianess)
        ⟨⟨d, scannerEvents [l] ++ events, none, returned⟩, ⟨none, interrupts [l] ++ input⟩,
          data.gdb.arm⟩
        ⟨⟨d', events, none, returned'⟩, ⟨none, input⟩, data'.gdb.arm⟩ := by
  cases h with
  | @interrupt irq result arm loc h =>
    exact ⟨d, returned, hd ▸ rfl, (or_iff_left List.not_mem_nil).symm,
      .tail (.single (.irqMove .read)) (.exception h)⟩
  | @scanner event _ loc given₀ h hwrites =>
    obtain rfl := hreturned (List.cons_ne_nil event [])
    rw [ScannerEvent.action_eq (isSome_table loc endianess)] at h
    obtain ⟨packet, data₁, hbefore, hrest⟩ := Prog.run_bind_eq_some.1 h
    -- the listener starts from `d`, whose processor is another one
    have hbefore' := run_beforeLock_withArm hbefore d.gdb.arm
    have hwrites' := mt (writeFails_withArm d.gdb.arm).1 hwrites
    rw [← hd, ParserData.withArm_withArm, ParserData.withArm_self] at hbefore' hwrites'
    have harm := run_beforeLock_arm hbefore
    have hmove : ListenersStep endianess
        ⟨⟨d, event :: events, none, false⟩, ⟨none, input⟩, data.gdb.arm⟩
        ⟨⟨data₁.withArm d.gdb.arm, events, packet, decide (event = .endOfFile)⟩, ⟨none, input⟩,
          data.gdb.arm⟩ := .gdbMove (.event hbefore' hwrites')
    have hlast : decide (event = .endOfFile) = true ↔
        false = true ∨ .endOfFile ∈ scannerEvents [.scanner event] := by
      rw [decide_eq_true_iff, or_iff_right Bool.false_ne_true]
      exact eq_comm.trans List.mem_singleton.symm
    cases packet with
    | none =>
      cases hrest
      refine ⟨data₁.withArm d.gdb.arm, _, rfl, hlast, ?_⟩
      rw [harm]
      exact .single hmove
    | some packet =>
      refine ⟨data', _, rfl, hlast,
        .tail (.single hmove) (@ListenersStep.handle _ loc _ _ _ _ _ _ _ ?_)⟩
      rw [ParserData.withArm_withArm, ← harm]
      exact hrest

/-- The listeners can take the events of a session in its order. -/
theorem realised_of_run {ls : List SimulatorEvent} {data : ParserData}
    (h : Run (SimulatorStep endianess) data₀ ls data) (events : List ScannerEvent)
    (input : List Byte) (hone : OneInput (scannerEvents ls ++ events)) :
    ∃ d returned, d.withArm data.gdb.arm = data ∧
      (returned = true ↔ .endOfFile ∈ scannerEvents ls) ∧
      ReflTransGen (ListenersStep endianess)
        (listenersStart data₀ (scannerEvents ls ++ events) (interrupts ls ++ input))
        ⟨⟨d, events, none, returned⟩, ⟨none, input⟩, data.gdb.arm⟩ := by
  induction h generalizing events input with
  | nil => exact ⟨data₀, false, rfl, iff_of_false Bool.false_ne_true List.not_mem_nil, .refl⟩
  | @snoc data data' l ls _ hstep ih =>
    have hevents : scannerEvents (ls ++ [l]) ++ events =
        scannerEvents ls ++ (scannerEvents [l] ++ events) := by
      rw [← List.append_assoc]
      exact congrArg (· ++ events) List.filterMap_append
    have hinput : interrupts (ls ++ [l]) ++ input = interrupts ls ++ (interrupts [l] ++ input) := by
      rw [← List.append_assoc]
      exact congrArg (· ++ input) List.filterMap_append
    rw [hevents] at hone
    obtain ⟨d, returned, hd, hreturned, hrun⟩ :=
      ih (scannerEvents [l] ++ events) (interrupts [l] ++ input) hone
    -- before an event of the scanner the input has not ended
    have hopen : scannerEvents [l] ≠ [] → returned = false := by
      intro hne
      obtain ⟨event, rest, hcons⟩ := List.exists_cons_of_ne_nil hne
      rw [hcons, List.cons_append] at hone
      exact Bool.eq_false_iff.2 (mt hreturned.1 hone.notMem)
    obtain ⟨d', returned', hd', hreturned', hlast⟩ := hstep.realised hd events input hopen
    refine ⟨d', returned', hd', ?_, ?_⟩
    · have happend : scannerEvents (ls ++ [l]) = scannerEvents ls ++ scannerEvents [l] :=
        List.filterMap_append
      rw [hreturned', hreturned, happend, List.mem_append]
    · rw [hevents, hinput]
      exact hrun.trans hlast

end

/-! ## Interrupts call by call -/

/-- `enterException` in the calls that it makes. -/
def enterExceptionCalls (cpsr offset vector : Word) : Resume ArmCore Unit := do
  let pc ← .lift (armReadRegister 15)
  .lift (armWriteRegister 14 (pc + offset))
  let current ← .lift armReadCpsr
  .lift (armWriteSpsr current)
  .lift (armWriteCpsr cpsr)
  .lift (armWriteRegister 15 vector)

/-- `arm_exception` as an interrupt calls it, in the calls that it makes; for other exceptions it
is one step. -/
def armExceptionCalls (endianess : Byte) (loc : Locals) (exception : Byte) :
    Resume ArmCore Byte := do
  let cpsr : Word := 0x1d3 ||| exceptionBit9
  if exception = fastInterrupt then
    enterExceptionCalls cpsr 4 0x1C
    return exception
  else if exception = interrupt then
    enterExceptionCalls (clrBit cpsr 6) 4 0x18
    return exception
  else .lift (armException endianess loc exception)

/-- The calls that save a state and write CPSR and the PC are those of the model. -/
theorem run_enterExceptionCalls (cpsr offset vector : Word) :
    (enterExceptionCalls cpsr offset vector).run = enterException cpsr offset vector := by
  simp only [enterExceptionCalls, enterException, Resume.run_bind, Resume.run_lift]

/-- The calls of `arm_exception` to the processor are those of the model. -/
theorem run_armExceptionCalls (endianess : Byte) (loc : Locals) (exception : Byte) :
    (armExceptionCalls endianess loc exception).run = armException endianess loc exception := by
  simp only [armExceptionCalls, Resume.run_ite, Resume.run_bind, Resume.run_lift, Resume.run_pure,
    run_enterExceptionCalls]
  split_ifs with hfast hirq
  · subst hfast
    rfl
  · subst hirq
    rfl
  · rfl

/-- Interrupts are taken call by call, and packets are handled in one step. -/
def Splitting.calls (endianess : Byte) : Splitting endianess where
  handle loc data packet := .lift fun arm =>
    ((onGdb (callHandler (Gdb.table loc endianess) packet)).run (data.withArm arm)).map
      fun r => (r.2, r.2.gdb.arm)
  run_handle loc data packet arm := by
    rw [Resume.run_lift]
    rfl
  exception := armExceptionCalls endianess
  run_exception := run_armExceptionCalls endianess

/-- The threads reach a state in which an interrupt has entered its mode only halfway, when a
newline comes from GDB. -/
theorem interrupted_reached :
    ∃ X, ReflTransGen Threads.Step (listenersAt (.calls 0) (listenersStart session
        [.token none [Ascii.newline]] [interrupt])).toState X ∧
      X.holder = some .irq ∧ X.shared = session.gdb.arm.write 14 8 ∧
      X.place .gdb = .outside (⟨session, [], none, false⟩ : GdbListener) := by
  have hread := ReflTransGen.single (Threads.Step.move (T := listeners (.calls 0))
    (S := (listenersAt (.calls 0) (listenersStart session [.token none [Ascii.newline]]
      [interrupt])).toState) (i := .irq) rfl IrqMove.read)
  have hlock := hread.tail (.lock (i := Listener.irq) rfl (IrqCritical.exception .zero) rfl)
  have hmove : GdbMove ⟨session, [.token none [Ascii.newline]], none, false⟩
      ⟨session, [], none, false⟩ :=
    @GdbMove.event 0 _ _ _ _ _ rfl fun hfails => Bool.false_ne_true hfails.1
  have hnewline := hlock.tail (.move (i := Listener.gdb) rfl hmove)
  have hpc := hnewline.tail (.act (i := Listener.irq) rfl)
  have hlink := hpc.tail (.act (i := Listener.irq) rfl)
  exact ⟨_, hlink, rfl, rfl, rfl⟩

/-! ## The threads -/

/-- The state of the threads when everything that was sent to them is done. -/
def listenersDone {endianess : Byte} (S : Splitting endianess) (data : ParserData) (returned : Bool)
    (arm : ArmCore) : (listeners S).State :=
  (listenersAt S ⟨⟨data, [], none, returned⟩, ⟨none, []⟩, arm⟩).toState

/-- After the session the process ends: the input has ended, or the next write fails. -/
inductive SessionEnds (events : List ScannerEvent) (ls : List SimulatorEvent) (data : ParserData) :
    Prop
  | returned (h : .endOfFile ∈ scannerEvents ls)
  | writeFails {event : ScannerEvent} {rest : List ScannerEvent} (given₀ : Word)
      (hevents : events = scannerEvents ls ++ event :: rest) (h : event.WriteFails given₀ data)

section
variable {endianess : Byte} {S : Splitting endianess} {data₀ : ParserData}
  {events : List ScannerEvent} {input : List Byte} {X : (listeners S).State}

/-- Every state reached has a session that accounts for it. -/
theorem exists_accounts
    (h : ReflTransGen Threads.Step (listenersAt S (listenersStart data₀ events input)).toState X) :
    ∃ X₁ ls data pending, Accounts endianess data₀ events input X₁ ls data pending ∧
      Threads.Explains (listenersAt S X₁) X := by
  obtain ⟨Z, hZ, hexplains⟩ := Threads.serializable h
  obtain ⟨X₁, hX₁, rfl⟩ := serialRun_iff.1 hZ
  obtain ⟨ls, data, pending, hacc⟩ := Accounts.of_run hX₁
  exact ⟨X₁, ls, data, pending, hacc, hexplains⟩

/-- **Mutual exclusion.** A thread is inside its critical section if and only if it holds the lock,
and only then the processor is changed; what `gdb_listener` does outside does not depend on it. -/
theorem listeners_exclusive
    (h : ReflTransGen Threads.Step (listenersAt S (listenersStart data₀ events input)).toState X) :
    (∀ i, (∃ r, X.place i = .inside r) ↔ X.holder = some i) ∧
      (∀ X', Threads.Step X X' → X'.shared ≠ X.shared →
        ∃ i r, X.holder = some i ∧ X.place i = .inside r) ∧
      ∀ l l', GdbMove l l' → ∀ arm, GdbMove { l with data := l.data.withArm arm }
        { l' with data := l'.data.withArm arm } := by
  refine ⟨fun i => Threads.inside_iff h, fun X' => Threads.holder_of_shared_ne h, ?_⟩
  rintro _ _ ⟨hbefore, hwrites⟩ arm
  exact .event (run_beforeLock_withArm hbefore arm) (mt (writeFails_withArm arm).1 hwrites)

/-- Halfway into an interrupt, `irq_listener` is inside and `gdb_listener` is not. -/
theorem listeners_exclusive_interrupted : ∃ X : (listeners (.calls 0)).State,
    X.shared = session.gdb.arm.write 14 8 ∧ (∃ r, X.place .irq = .inside r) ∧
      ¬ ∃ r, X.place .gdb = .inside r := by
  obtain ⟨X, h, hholder, hshared, -⟩ := interrupted_reached
  have hinside := (listeners_exclusive h).1
  refine ⟨X, hshared, (hinside .irq).2 hholder, fun hgdb => ?_⟩
  have hother := (hinside .gdb).1 hgdb
  rw [hholder] at hother
  cases hother

/-- **Serialization.** Whatever state the threads have reached, what they have done is a session, in
which every event and every interrupt that was read was taken once and in order, but for the one
that waits for the lock or is being handled. If one is being handled, what is left of its critical
section makes of the processor what the whole makes of that of the session. -/
theorem listeners_serialized
    (h : ReflTransGen Threads.Step (listenersAt S (listenersStart data₀ events input)).toState X) :
    ∃ ls data pending waiting, Run (SimulatorStep endianess) data₀ ls data ∧
      events = scannerEvents ls ++ pending ∧ input = interrupts ls ++ waiting ∧
      (X.holder = none → X.shared = data.gdb.arm) ∧
      (∃ l, Pending data l pending ∧ (X.holder ≠ some .gdb → X.place .gdb = .outside l) ∧
        (X.holder = some .gdb → X.Underway .gdb l data.gdb.arm)) ∧
      ∃ l : IrqListener, l.waiting = waiting ∧
        (X.holder ≠ some .irq → X.place .irq = .outside l) ∧
        (X.holder = some .irq → X.Underway .irq l data.gdb.arm) := by
  obtain ⟨X₁, ls, data, pending, hacc, hexplains⟩ := exists_accounts h
  refine ⟨ls, data, pending, X₁.irq.waiting, hacc.run, hacc.events, hacc.input, ?_,
    ⟨X₁.gdb, hacc.gdb, hexplains.outside .gdb, fun hgdb => ?_⟩,
    X₁.irq, rfl, hexplains.outside .irq, fun hirq => ?_⟩
  · exact fun hfree => (hexplains.free hfree).trans hacc.arm.symm
  · rw [hacc.arm]
    exact hexplains.busy .gdb hgdb
  · rw [hacc.arm]
    exact hexplains.busy .irq hirq

/-- Halfway into an interrupt, the newline that came meanwhile is done, and the interrupt is not. -/
theorem listeners_serialized_interrupted : ∃ X : (listeners (.calls 0)).State,
    X.holder = some .irq ∧ ∃ ls data waiting,
      Run (SimulatorStep 0) session ls data ∧ scannerEvents ls = [.token none [Ascii.newline]] ∧
        [interrupt] = interrupts ls ++ waiting ∧
        ∃ l : IrqListener, l.waiting = waiting ∧ X.Underway .irq l data.gdb.arm := by
  obtain ⟨X, h, hholder, -, hplace⟩ := interrupted_reached
  obtain ⟨ls, data, pending, waiting, hrun, hevents, hinput, -, ⟨l, hpending, houtside, -⟩,
    irq, hwaiting, -, hunderway⟩ := listeners_serialized h
  have hne : X.holder ≠ some .gdb := by
    rw [hholder]
    exact nofun
  have hl := houtside hne
  rw [hplace] at hl
  cases hl
  cases hpending
  exact ⟨X, hholder, ls, data, waiting, hrun, (hevents.trans (List.append_nil _)).symm, hinput, irq,
    hwaiting, hunderway hholder⟩

/-- What `gdb_listener` holds where the process ends is what the session has come to. -/
theorem Accounts.ends {X₁ : ListenersState} {ls : List SimulatorEvent} {data : ParserData}
    {pending : List ScannerEvent} (h : Accounts endianess data₀ events input X₁ ls data pending)
    (hone : OneInput events) (hends : X₁.gdb.EndsProcess) :
    SessionEnds events ls data ∧ X₁.gdb.data.withArm data.gdb.arm = data := by
  obtain ⟨gdb, irq, arm⟩ := X₁
  have hgdb := h.gdb
  cases hends with
  | returned hreturned =>
    have hmem := h.returned.1 hreturned
    cases hgdb with
    | rest hd => exact ⟨.returned hmem, hd⟩
    | packet =>
      -- a packet that is pending would come after the end
      rw [h.events] at hone
      exact absurd hmem hone.notMem
  | writeFails given₀ hfails =>
    obtain ⟨hd⟩ := hgdb
    refine ⟨.writeFails given₀ h.events ?_, hd⟩
    rw [← hd]
    exact (writeFails_withArm _).2 hfails

/-- The listeners take a session after which the process ends to the state where it ends. -/
theorem endsProcess_of_run {ls : List SimulatorEvent} {data : ParserData}
    {pending : List ScannerEvent} (waiting : List Byte)
    (h : Run (SimulatorStep endianess) data₀ ls data)
    (hone : OneInput (scannerEvents ls ++ pending))
    (hends : SessionEnds (scannerEvents ls ++ pending) ls data) :
    ∃ l : GdbListener, l.EndsProcess ∧ l.data.withArm data.gdb.arm = data ∧
      ReflTransGen (ListenersStep endianess)
        (listenersStart data₀ (scannerEvents ls ++ pending) (interrupts ls ++ waiting))
        ⟨l, ⟨none, waiting⟩, data.gdb.arm⟩ := by
  obtain ⟨d, returned, hd, hreturned, hrun⟩ := realised_of_run h pending waiting hone
  refine ⟨_, ?_, hd, hrun⟩
  cases hends with
  | returned hmem => exact .returned (hreturned.2 hmem)
  | @writeFails event rest given₀ hevents hfails =>
    obtain rfl := List.append_cancel_left hevents
    obtain rfl : returned = false := Bool.eq_false_iff.2 (mt hreturned.1 hone.notMem)
    refine .writeFails given₀ ?_
    rw [← hd] at hfails
    exact (writeFails_withArm _).1 hfails

/-- Where everything is done, it has been done in a session. -/
theorem session_of_done {data d : ParserData} {returned : Bool} (hd : d.withArm data.gdb.arm = data)
    (h : ReflTransGen Threads.Step (listenersAt S (listenersStart data₀ events input)).toState
      (listenersDone S d returned data.gdb.arm)) :
    ∃ ls, Run (SimulatorStep endianess) data₀ ls data ∧ scannerEvents ls = events ∧
      interrupts ls = input := by
  obtain ⟨X₁, ls, data', pending, hacc, hexplains⟩ := exists_accounts h
  have hgdb : X₁.gdb = ⟨d, [], none, returned⟩ := hexplains.own_eq (i := Listener.gdb) rfl
  have hirq : X₁.irq = ⟨none, []⟩ := hexplains.own_eq (i := Listener.irq) rfl
  have harm : data.gdb.arm = data'.gdb.arm := (hexplains.free rfl).trans hacc.arm.symm
  have hpending := hacc.gdb
  rw [hgdb] at hpending
  obtain ⟨hd'⟩ := hpending
  refine ⟨ls, ?_, ?_, ?_⟩
  · rw [← hd, harm, hd']
    exact hacc.run
  · rw [hacc.events, List.append_nil]
  · rw [hacc.input, hirq]
    exact (List.append_nil _).symm

/-- Where the process ends, a session has come to what `gdb_listener` holds, and to the processor if
the lock is free. -/
theorem session_of_ends (hone : OneInput events) {l : GdbListener}
    (h : ReflTransGen Threads.Step (listenersAt S (listenersStart data₀ events input)).toState X)
    (hl : X.place .gdb = .outside l) (hends : l.EndsProcess) :
    ∃ ls data, Run (SimulatorStep endianess) data₀ ls data ∧ scannerEvents ls <+: events ∧
      interrupts ls <+: input ∧ SessionEnds events ls data ∧ l.data.withArm data.gdb.arm = data ∧
      (X.holder = none → X.shared = data.gdb.arm) := by
  obtain ⟨X₁, ls, data, pending, hacc, hexplains⟩ := exists_accounts h
  obtain rfl : X₁.gdb = l := hexplains.own_eq hl
  obtain ⟨hsession, hd⟩ := hacc.ends hone hends
  exact ⟨ls, data, hacc.run, ⟨pending, hacc.events.symm⟩, ⟨_, hacc.input.symm⟩, hsession, hd,
    fun hfree => (hexplains.free hfree).trans hacc.arm.symm⟩

/-- **The outcomes of the threads are those of the sessions** that interleave the events of the
scanner and the interrupts: where everything is done, and where the process ends, with interrupts
that have not been taken. Whatever `irq_listener` is doing then, what was sent is what a session has
sent. -/
theorem listeners_iff (S : Splitting endianess) (data₀ : ParserData) (hone : OneInput events)
    (input : List Byte) :
    (∀ data, (∃ d returned, d.withArm data.gdb.arm = data ∧
      ReflTransGen Threads.Step (listenersAt S (listenersStart data₀ events input)).toState
        (listenersDone S d returned data.gdb.arm)) ↔
      ∃ ls, Run (SimulatorStep endianess) data₀ ls data ∧ scannerEvents ls = events ∧
        interrupts ls = input) ∧
    (∀ data, (∃ X l, ReflTransGen Threads.Step
        (listenersAt S (listenersStart data₀ events input)).toState X ∧ X.holder = none ∧
        X.place .gdb = .outside l ∧ l.EndsProcess ∧ l.data.withArm X.shared = data) ↔
      ∃ ls, Run (SimulatorStep endianess) data₀ ls data ∧ scannerEvents ls <+: events ∧
        interrupts ls <+: input ∧ SessionEnds events ls data) ∧
    ∀ X l, ReflTransGen Threads.Step (listenersAt S (listenersStart data₀ events input)).toState X →
      X.place .gdb = .outside l → l.EndsProcess →
        ∃ ls data, Run (SimulatorStep endianess) data₀ ls data ∧ scannerEvents ls <+: events ∧
          interrupts ls <+: input ∧ SessionEnds events ls data ∧
          l.data.gdb.sent = data.gdb.sent := by
  refine ⟨fun data => ⟨?_, ?_⟩, fun data => ⟨?_, ?_⟩, ?_⟩
  · rintro ⟨d, returned, hd, h⟩
    exact session_of_done hd h
  · rintro ⟨ls, hrun, rfl, rfl⟩
    rw [← List.append_nil (scannerEvents ls)] at hone
    obtain ⟨d, returned, hd, -, h⟩ := realised_of_run hrun [] [] hone
    rw [List.append_nil, List.append_nil] at h
    exact ⟨d, returned, hd, Threads.Serial.realised (serialRun_iff.2 ⟨_, h, rfl⟩)⟩
  · rintro ⟨X, l, h, hfree, hl, hends, rfl⟩
    obtain ⟨ls, data, hrun, hevents, hinput, hsession, hd, hshared⟩ :=
      session_of_ends hone h hl hends
    rw [hshared hfree, hd]
    exact ⟨ls, hrun, hevents, hinput, hsession⟩
  · rintro ⟨ls, hrun, ⟨pending, rfl⟩, ⟨waiting, rfl⟩, hsession⟩
    obtain ⟨l, hends, hd, h⟩ := endsProcess_of_run waiting hrun hone hsession
    exact ⟨_, l, Threads.Serial.realised (serialRun_iff.2 ⟨_, h, rfl⟩), rfl, rfl, hends, hd⟩
  · intro X l h hl hends
    obtain ⟨ls, data, hrun, hevents, hinput, hsession, hd, -⟩ := session_of_ends hone h hl hends
    exact ⟨ls, data, hrun, hevents, hinput, hsession, congrArg (fun data => data.gdb.sent) hd⟩

/-- The process may end before an interrupt is taken. -/
theorem listeners_iff_returned : ∃ X l, ReflTransGen Threads.Step
    (listenersAt (.calls 0) (listenersStart session [.endOfFile] [interrupt])).toState X ∧
      X.holder = none ∧ X.place .gdb = .outside l ∧ l.EndsProcess ∧
        l.data.withArm X.shared = session := by
  have hone : OneInput [.endOfFile] := List.not_mem_nil
  have hend : SimulatorStep 0 session (.scanner .endOfFile) session :=
    .scanner .zero 0 rfl fun hfails => Bool.false_ne_true hfails.1
  refine ((listeners_iff (.calls 0) session hone [interrupt]).2.1 session).2
    ⟨_, .single hend, List.prefix_refl _, List.nil_prefix, .returned List.mem_cons_self⟩

end

end ArmSimulator
