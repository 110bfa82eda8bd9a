import ArmSimulator.Lib.Escape
import ArmSimulator.Replies

/-!
# Reading and writing the memory

`write_memory_binary` and `read_memory` go through the memory byte by byte. The first decodes the
escaped bytes of its packet as it goes, up to the first byte that cannot be written
(`run_writeLoop`); the second answers two digits for each byte, whether the read has succeeded or
not (`run_readLoop`). `memory_packets` is what the two together do.
-/

namespace ArmSimulator

/-! ## Bytes of the memory -/

/-- An access to a byte succeeds inside the memory. -/
theorem memoryCheck_byte {mem : Memory} {address : Word} :
    memoryCheck mem 0 address = .success ↔ address.toNat < mem.size.toNat := by
  have haddress := address.isLt
  have hinside : mem.inRange 0 address = true ↔ address.toNat < mem.size.toNat := by
    simp only [Memory.inRange, BitVec.ult, decide_eq_true_eq, BitVec.toNat_sub,
      BitVec.toNat_setWidth, BitVec.toNat_ofNat]
    have := mem.size.isLt
    omega
  unfold memoryCheck
  by_cases hz : mem.size = 0
  · rw [if_pos hz, hz]
    simp
  · rw [if_neg hz, ← hinside]
    cases mem.inRange 0 address with
    | true => simp
    | false => simp

/-- The memory after the bytes are written, one after the other. -/
def Memory.putBytes (mem : Memory) (address : Word) : List Byte → Memory
  | [] => mem
  | b :: bs => (memoryWriteByte mem address b).2.putBytes (address + 1) bs

/-- The state with the memory replaced. -/
def GdbData.withMem (g : GdbData) (mem : Memory) : GdbData := { g with arm := { g.arm with mem } }

/-- No exit code is -1. -/
theorem ExitCode.toInt_ne (code : ExitCode) : code.toInt ≠ -1 := by
  cases code <;> decide

namespace Gdb

open Fallible

/-! ## `write_memory_binary` -/

/-- The bytes that the packet encodes. -/
abbrev decodeBytes : Nat → List Byte → Option (List Byte) :=
  Escape.decode Ascii.escape (· ^^^ 0x20)

section
variable {loc : GdbLocals} {g : GdbData} {data : List Byte} {content n : Nat} {address : Word}

/-- A byte that stands for itself is written in a round of the loop. -/
theorem run_writeLoop_plain {c : Byte} {s : List Byte} (h : data.drop content = c :: s)
    (hc : c ≠ Ascii.escape) :
    (writeLoop loc data content address true (n + 1)).run g =
      (writeLoop loc data (content + 1) (address + 1)
        (decide ((memoryWriteByte g.arm.mem address c).1 = .success)) n).run
        (g.withMem (memoryWriteByte g.arm.mem address c).2) := by
  rw [writeLoop, if_pos rfl, run_bind_ok (run_byteAt h), if_neg hc]
  rfl

/-- A byte that is escaped is written in a round of the loop as well. -/
theorem run_writeLoop_escaped {c : Byte} {s : List Byte}
    (h : data.drop content = Ascii.escape :: c :: s) :
    (writeLoop loc data content address true (n + 1)).run g =
      (writeLoop loc data (content + 2) (address + 1)
        (decide ((memoryWriteByte g.arm.mem address (c ^^^ 0x20)).1 = .success)) n).run
        (g.withMem (memoryWriteByte g.arm.mem address (c ^^^ 0x20)).2) := by
  have h' : data.drop (content + 1) = c :: s := by
    rw [← List.drop_drop, h]
    rfl
  rw [writeLoop, if_pos rfl, run_bind_ok (run_byteAt h), if_pos rfl, run_bind_ok (run_byteAt h')]
  rfl

/-- A round of the loop takes the byte from the content, and writes it. -/
def Round (loc : GdbLocals) (data : List Byte) (content : Nat) (b : Byte) (content' : Nat) : Prop :=
  ∀ (g : GdbData) (address : Word) (n : Nat),
    (writeLoop loc data content address true (n + 1)).run g =
      (writeLoop loc data content' (address + 1)
        (decide ((memoryWriteByte g.arm.mem address b).1 = .success)) n).run
        (g.withMem (memoryWriteByte g.arm.mem address b).2)

/-- The next round, if there is one: its byte is the first one that is decoded. -/
theorem round_cases (loc : GdbLocals) (data : List Byte) (content : Nat) :
    (∃ b content', Round loc data content b content' ∧ ∀ m, decodeBytes (m + 1)
      (data.drop content) = (decodeBytes m (data.drop content')).map (b :: ·)) ∨
    (∀ m, decodeBytes (m + 1) (data.drop content) = none) ∧
      (loc.past = (fun _ => []) → ∀ g address n,
        (writeLoop loc data content address true (n + 1)).run g = .error .pastEnd) := by
  rcases hs : data.drop content with _ | ⟨c, s⟩
  · refine .inr ⟨fun m => rfl, fun hpast g address n => ?_⟩
    rw [writeLoop, if_pos rfl, run_bind_error (run_byteAt_past hs hpast)]
  · have hs' : data.drop (content + 1) = s := by
      rw [← List.drop_drop, hs]
      rfl
    by_cases hc : c = Ascii.escape
    · subst hc
      rcases s with _ | ⟨c, s⟩
      · refine .inr ⟨fun m => Escape.decode_esc_nil m, fun hpast g address n => ?_⟩
        rw [writeLoop, if_pos rfl, run_bind_ok (run_byteAt hs), if_pos rfl]
        exact run_bind_error (run_byteAt_past hs' hpast)
      · have hs'' : data.drop (content + 2) = s := by
          rw [← List.drop_drop, hs]
          rfl
        refine .inl ⟨_, content + 2, fun _ _ _ => run_writeLoop_escaped hs, fun m => ?_⟩
        rw [hs'']
        exact Escape.decode_escaped m c s
    · refine .inl ⟨c, content + 1, fun _ _ _ => run_writeLoop_plain hs hc, fun m => ?_⟩
      rw [hs']
      exact Escape.decode_of_ne hc m s

/-- Where the bytes that are still to be taken are there, there is one. -/
theorem round_of_decode (loc : GdbLocals) {m : Nat} {bs : List Byte}
    (h : decodeBytes (m + 1) (data.drop content) = some bs) :
    ∃ b content' bs', bs = b :: bs' ∧ decodeBytes m (data.drop content') = some bs' ∧
      Round loc data content b content' := by
  rcases round_cases loc data content with ⟨b, content', hround, hdecode⟩ | ⟨hnone, -⟩
  · rw [hdecode, Option.map_eq_some_iff] at h
    obtain ⟨bs', hbs, rfl⟩ := h
    exact ⟨b, content', bs', rfl, hbs, hround⟩
  · rw [hnone] at h
    cases h

/-- Where they are not, and there is no memory behind the packet, the loop goes on to the end of
it. -/
theorem round_of_decode_none {m : Nat} (hpast : loc.past = fun _ => [])
    (h : decodeBytes (m + 1) (data.drop content) = none) :
    (∀ g address n, (writeLoop loc data content address true (n + 1)).run g = .error .pastEnd) ∨
      ∃ b content', decodeBytes m (data.drop content') = none ∧
        Round loc data content b content' := by
  rcases round_cases loc data content with ⟨b, content', hround, hdecode⟩ | ⟨-, hfault⟩
  · rw [hdecode, Option.map_eq_none_iff] at h
    exact .inr ⟨b, content', h, hround⟩
  · exact .inl (hfault hpast)

/-- The rounds of the loop: up to the first byte that is not written, if there is one. -/
def rounds (mem : Memory) (address : Word) (n : Nat) : Nat :=
  if mem.size.toNat < 2 ^ 32 then min n (mem.size.toNat - address.toNat + 1) else n

/-- No round is made for no byte. -/
theorem rounds_zero (mem : Memory) (address : Word) : rounds mem address 0 = 0 := by
  rw [rounds, Nat.zero_min, ite_self]

/-- An address outside the memory takes one round, which is the last. -/
theorem rounds_last {mem : Memory} (h : ¬ address.toNat < mem.size.toNat) :
    mem.size.toNat < 2 ^ 32 ∧ rounds mem address (n + 1) = 0 + 1 := by
  have hsize : mem.size.toNat < 2 ^ 32 := by
    have := address.isLt
    omega
  refine ⟨hsize, ?_⟩
  rw [rounds, if_pos hsize]
  omega

/-- The loop ends at once after a byte that is not written. -/
theorem run_writeLoop_false :
    (writeLoop loc data content address false n).run g = .ok (false, g) := by
  cases n with
  | zero => rfl
  | succ n => rfl

/-- A byte inside the memory takes one round, and the others go on from the next address. -/
theorem rounds_succ {mem : Memory} (h : address.toNat < mem.size.toNat) :
    (address + 1).toNat ≤ mem.size.toNat ∧
      rounds mem address (n + 1) = rounds mem (address + 1) n + 1 ∧
      ((mem.size.toNat < 2 ^ 32 → (address + 1).toNat + n ≤ mem.size.toNat) ↔
        (mem.size.toNat < 2 ^ 32 → address.toNat + (n + 1) ≤ mem.size.toNat)) := by
  have hadd : (address + 1).toNat = (address.toNat + 1) % 2 ^ 32 := by
    rw [BitVec.toNat_add]
    rfl
  have hlt := address.isLt
  rw [hadd, rounds, rounds, hadd]
  refine ⟨?_, ?_, ?_⟩
  · omega
  · split_ifs
    · omega
    · rfl
  · omega

/-- **The loop**, where the bytes it takes are in the packet. -/
theorem run_writeLoop (loc : GdbLocals) {bs : List Byte} (ha : address.toNat ≤ g.arm.mem.size.toNat)
    (hbs : decodeBytes (rounds g.arm.mem address n) (data.drop content) = some bs) :
    (writeLoop loc data content address true n).run g =
      .ok (decide (g.arm.mem.size.toNat < 2 ^ 32 → address.toNat + n ≤ g.arm.mem.size.toNat),
        g.withMem (g.arm.mem.putBytes address bs)) := by
  induction n generalizing g content address bs with
  | zero =>
    rw [rounds_zero] at hbs
    cases hbs
    refine congrArg (fun b => Except.ok (b, g)) (decide_eq_true fun _ => ?_).symm
    exact ha
  | succ n ih =>
    by_cases hlt : address.toNat < g.arm.mem.size.toNat
    · obtain ⟨ha', hrounds, hiff⟩ := rounds_succ (n := n) hlt
      rw [hrounds] at hbs
      obtain ⟨b, content', bs', rfl, hbs', hround⟩ := round_of_decode loc hbs
      have hcode : (memoryWriteByte g.arm.mem address b).1 = .success :=
        (memoryWriteByte_fst _ _ _).trans (memoryCheck_byte.2 hlt)
      have hsize := memoryWriteByte_size g.arm.mem address b
      have ha'' : (address + 1).toNat ≤
          (g.withMem (memoryWriteByte g.arm.mem address b).2).arm.mem.size.toNat := by
        show _ ≤ (memoryWriteByte g.arm.mem address b).2.size.toNat
        rw [hsize]
        exact ha'
      have hbs'' : decodeBytes (rounds (g.withMem (memoryWriteByte g.arm.mem address b).2).arm.mem
          (address + 1) n) (data.drop content') = some bs' := by
        show decodeBytes (rounds (memoryWriteByte g.arm.mem address b).2 _ _) _ = _
        rw [rounds, hsize]
        exact hbs'
      rw [hround, decide_eq_true hcode, ih ha'' hbs'']
      show Except.ok (decide ((memoryWriteByte g.arm.mem address b).2.size.toNat < 2 ^ 32 →
        (address + 1).toNat + n ≤ (memoryWriteByte g.arm.mem address b).2.size.toNat), _) = _
      rw [hsize, decide_eq_decide.2 hiff]
      rfl
    · -- the byte after the last one of the memory
      obtain ⟨hsize, hone⟩ := rounds_last (n := n) hlt
      rw [hone] at hbs
      obtain ⟨b, content', bs', rfl, hbs', hround⟩ := round_of_decode loc hbs
      cases hbs'
      have hcode : ¬ (memoryWriteByte g.arm.mem address b).1 = .success := by
        rw [memoryWriteByte_fst, memoryCheck_byte]
        exact hlt
      rw [hround, decide_eq_false hcode, run_writeLoop_false, decide_eq_false (by omega)]
      rfl

/-- **The loop**, where they are not, and there is no memory behind the packet. -/
theorem run_writeLoop_past (hpast : loc.past = fun _ => [])
    (ha : address.toNat ≤ g.arm.mem.size.toNat)
    (hbs : decodeBytes (rounds g.arm.mem address n) (data.drop content) = none) :
    (writeLoop loc data content address true n).run g = .error .pastEnd := by
  induction n generalizing g content address with
  | zero =>
    rw [rounds_zero] at hbs
    cases hbs
  | succ n ih =>
    by_cases hlt : address.toNat < g.arm.mem.size.toNat
    · obtain ⟨ha', hrounds, -⟩ := rounds_succ (n := n) hlt
      rw [hrounds] at hbs
      rcases round_of_decode_none hpast hbs with herror | ⟨b, content', hbs', hround⟩
      · exact herror g address n
      · have hcode : (memoryWriteByte g.arm.mem address b).1 = .success :=
          (memoryWriteByte_fst _ _ _).trans (memoryCheck_byte.2 hlt)
        have hsize := memoryWriteByte_size g.arm.mem address b
        rw [hround, decide_eq_true hcode]
        refine ih ?_ ?_
        · show _ ≤ (memoryWriteByte g.arm.mem address b).2.size.toNat
          rw [hsize]
          exact ha'
        · show decodeBytes (rounds (memoryWriteByte g.arm.mem address b).2 _ _) _ = _
          rw [rounds, hsize]
          exact hbs'
    · rw [(rounds_last (n := n) hlt).2] at hbs
      rcases round_of_decode_none hpast hbs with herror | ⟨b, content', hbs', -⟩
      · exact herror g address n
      · cases hbs'

end

/-! ## `read_memory` -/

/-- The digits that the loop writes: a read that fails leaves the byte of the one before. -/
def readText (mem : Memory) (address : Word) (value : Byte) : Nat → List Byte
  | 0 => []
  | n + 1 =>
    formatHex 2 (memoryReadByte mem address value).2.toNat ++
      readText mem (address + 1) (memoryReadByte mem address value).2 n

section
variable {g : GdbData} {payload : List Byte} {address : Word} {value : Byte} {n : Nat}

/-- Two digits are written for each byte. -/
theorem length_readText (mem : Memory) (address : Word) (value : Byte) (n : Nat) :
    (readText mem address value n).length = 2 * n := by
  induction n generalizing address value with
  | zero => rfl
  | succ n ih =>
    rw [readText, List.length_append, length_formatHex, ih]
    omega

/-- The digits of the bytes have no NUL. -/
theorem noNul_readText (mem : Memory) (address : Word) (value : Byte) (n : Nat) :
    NoNul (readText mem address value n) := by
  induction n generalizing address value with
  | zero => exact fun c hc => absurd hc List.not_mem_nil
  | succ n ih => exact (noNul_formatHex _ _).append (ih _ _)

/-- A round of the loop writes two digits. The loop is left for the code -1 only, so in no round. -/
theorem run_readLoop_succ (position : Nat) :
    (readLoop address value position (n + 1)).run g =
      (putText position (formatHex 2 (memoryReadByte g.arm.mem address value).2.toNat) >>= fun _ =>
        readLoop (address + 1) (memoryReadByte g.arm.mem address value).2
          (position + 2) n).run g := by
  refine run_get_bind.trans ?_
  exact congrArg (fun m => StateT.run m g)
    (if_pos (memoryReadByte g.arm.mem address value).1.toInt_ne)

/-- **The loop** writes all digits where they fit. -/
theorem run_readLoop (address : Word) (value : Byte) (hb : Buffered g payload)
    (hmax : 1 + payload.length + 2 * n < maxPacketSize) :
    ∃ packet, (readLoop address value (1 + payload.length) n).run g = .ok ((), { g with packet }) ∧
      Buffered { g with packet } (payload ++ readText g.arm.mem address value n) := by
  induction n generalizing g payload address value with
  | zero =>
    rw [readText, List.append_nil]
    exact ⟨g.packet, rfl, hb⟩
  | succ n ih =>
    let value' := (memoryReadByte g.arm.mem address value).2
    let packet := putString g.packet (1 + payload.length) (formatHex 2 value'.toNat)
    have hlen : (payload ++ formatHex 2 value'.toNat).length = payload.length + 2 := by
      rw [List.length_append, length_formatHex]
    have hput : (putText (1 + payload.length) (formatHex 2 value'.toNat)).run g =
        .ok ((), { g with packet }) := by
      refine run_putText ?_
      rw [length_formatHex]
      omega
    have hb' : Buffered { g with packet } (payload ++ formatHex 2 value'.toNat) := by
      refine ⟨hb.stored.append _, ?_⟩
      rw [List.length_append, ← Nat.add_assoc]
      exact (stored_putString _ _ _).2
    obtain ⟨packet', hrun, hbuffered⟩ := ih (address + 1) value' hb' (by
      rw [hlen]
      omega)
    rw [hlen] at hrun
    refine ⟨packet', ?_, ?_⟩
    · rw [run_readLoop_succ, run_bind_ok hput]
      exact hrun
    · rw [readText, ← List.append_assoc]
      exact hbuffered

/-- The write of a byte outside the array does not succeed. -/
theorem run_writePacket_bound {i : Nat} {c : Byte} (h : maxPacketSize ≤ i) :
    (writePacket i c).run g = none := by
  unfold writePacket
  rw [decide_eq_false (Nat.not_lt.2 h)]
  rfl

/-- The write of a text that does not fit does not succeed. -/
theorem run_writeString_bound {i : Nat} {s : List Byte} (h : maxPacketSize ≤ i + s.length) :
    (writeString i s).run g = none := by
  induction s generalizing g i with
  | nil => exact run_writePacket_bound h
  | cons c s ih =>
    by_cases hi : i < maxPacketSize
    · rw [List.length_cons] at h
      rw [writeString, Prog.run_bind_of (run_writePacket hi c)]
      exact ih (by omega)
    · exact Prog.run_bind_of_none (run_writePacket_bound (Nat.not_lt.1 hi))

/-- **The loop** writes past its buffer where the digits do not fit. -/
theorem run_readLoop_bound {position : Nat} (hposition : position < maxPacketSize)
    (hmax : maxPacketSize ≤ position + 2 * n) :
    (readLoop address value position n).run g = .error .packetBound := by
  induction n generalizing g position address value with
  | zero => exact absurd hposition (Nat.not_lt.2 hmax)
  | succ n ih =>
    have hlen := length_formatHex 2 (memoryReadByte g.arm.mem address value).2.toNat
    rw [run_readLoop_succ]
    by_cases hfits : position + 2 < maxPacketSize
    · rw [run_bind_ok (run_putText (by rw [hlen]; exact hfits))]
      exact ih hfits (by omega)
    · refine run_bind_error (run_ofProg_error (run_writeString_bound ?_))
      rw [hlen]
      omega

/-- The sending of a payload that does not fit does not succeed. -/
theorem run_sendBuffer_bound (hb : Buffered g payload) (hne : NoNul payload)
    (hlen : 4091 < payload.length) (hmax : 1 + payload.length < maxPacketSize) :
    sendBuffer.run g = .error .packetBound := by
  have hloop : (bufferLoop 1 0).run { g with packet := Function.update g.packet 0 Ascii.dollar } =
      some ((1 + payload.length, checksum payload),
        { g with packet := Function.update g.packet 0 Ascii.dollar }) := by
    refine run_bufferLoop (hb.stored.congr fun k hk _ => ?_) hne ?_ hmax
    · exact Function.update_of_ne (by omega) _ _
    · exact (Function.update_of_ne (by omega) _ _).trans hb.nul
  refine run_ofProg_error ?_
  unfold gdbSendBuffer
  rw [Prog.run_bind_of (run_writePacket (by omega) _), Prog.run_bind_of hloop]
  dsimp only
  rw [Prog.run_bind_of (run_writePacket hmax _)]
  refine Prog.run_bind_of_none (run_writeString_bound ?_)
  rw [length_formatHex]
  show 4096 ≤ _
  omega

end

section
variable (g : GdbData) (loc : GdbLocals) (data : List Byte)

/-- What `read_memory` answers. -/
abbrev memoryText : List Byte :=
  readText g.arm.mem (packetAddress loc data) loc.octet (packetSize loc data).toNat

/-- An address is compared with the size of the memory without being cut. -/
theorem lt_memoryGetSize {mem : Memory} {address : Word} :
    address.setWidth 64 < memoryGetSize mem ↔ address.toNat < mem.size.toNat := by
  have haddress := address.isLt
  rw [BitVec.lt_def, BitVec.toNat_setWidth, Nat.mod_eq_of_lt (by omega)]
  rfl

/-- Inside the memory, `read_memory` goes through the loop. -/
theorem run_readMemory_inside (h : (packetAddress loc data).toNat < g.arm.mem.size.toNat) :
    ∃ packet, Buffered { g with packet := packet } [] ∧ (readMemory loc data).run g =
      (readLoop (packetAddress loc data) loc.octet 1 (packetSize loc data).toNat >>= fun _ =>
        sendBuffer).run { g with packet := packet } := by
  let packet : Nat → Byte := Function.update g.packet 1 Ascii.nul
  have hnul : packet (1 + ([] : List Byte).length) = Ascii.nul :=
    Function.update_self 1 Ascii.nul g.packet
  refine ⟨packet, ⟨trivial, hnul⟩, ?_⟩
  have hwrite : (ofProg Fault.packetBound (writePacket 1 Ascii.nul)).run g =
      .ok ((), { g with packet := packet }) :=
    run_ofProg (run_writePacket (by decide) _)
  unfold readMemory
  refine run_get_bind.trans ?_
  dsimp only
  rw [if_pos (lt_memoryGetSize.2 h)]
  exact run_bind_ok hwrite

/-- **What `read_memory` does** where the answer fits. -/
theorem run_readMemory (h : (packetAddress loc data).toNat < g.arm.mem.size.toNat)
    (hsize : (packetSize loc data).toNat ≤ 2045) : ∃ packet,
      (readMemory loc data).run g = .ok ((), g.answered packet (memoryText g loc data)) := by
  obtain ⟨packet, hb, hrun⟩ := run_readMemory_inside g loc data h
  have hlen := length_readText g.arm.mem (packetAddress loc data) loc.octet
    (packetSize loc data).toNat
  have hmax : 1 + ([] : List Byte).length + 2 * (packetSize loc data).toNat < maxPacketSize := by
    show 1 + 0 + _ < 4096
    omega
  obtain ⟨packet', hloop, hb'⟩ := run_readLoop (packetAddress loc data) loc.octet hb hmax
  have hfits : (memoryText g loc data).length ≤ 4091 := by
    rw [hlen]
    omega
  have hsend := run_sendBuffer hfits (noNul_readText _ _ _ _) hb'
  exact ⟨packet', hrun.trans ((run_bind_ok hloop).trans hsend)⟩

/-- `read_memory` writes past its buffer where more than 2045 bytes are asked for. -/
theorem run_readMemory_bound (h : (packetAddress loc data).toNat < g.arm.mem.size.toNat)
    (hsize : 2045 < (packetSize loc data).toNat) :
    (readMemory loc data).run g = .error .packetBound := by
  obtain ⟨packet, hb, hrun⟩ := run_readMemory_inside g loc data h
  rw [hrun]
  by_cases hfits : 1 + 2 * (packetSize loc data).toNat < maxPacketSize
  · have hlen := length_readText g.arm.mem (packetAddress loc data) loc.octet
      (packetSize loc data).toNat
    obtain ⟨packet', hloop, hb'⟩ := run_readLoop (packetAddress loc data) loc.octet hb (by
      rw [List.length_nil, Nat.add_zero]
      exact hfits)
    refine (run_bind_ok hloop).trans (run_sendBuffer_bound hb' (noNul_readText _ _ _ _) ?_ ?_)
    · rw [List.nil_append, hlen]
      omega
    · rw [List.nil_append, hlen]
      exact hfits
  · exact run_bind_error (run_readLoop_bound (by decide) (Nat.not_lt.1 hfits))

/-- `read_memory` answers an address outside the memory with `E0E`. -/
theorem run_readMemory_outside (h : ¬ (packetAddress loc data).toNat < g.arm.mem.size.toNat) :
    ∃ packet, (readMemory loc data).run g = .ok ((), g.answered packet (ascii "E0E")) := by
  have hstored : Stored g.packet 1 [] := trivial
  have hne : NoNul (ascii "E0E") := noNul_ascii (by decide)
  have hlast := run_putText_sendBuffer (s := ascii "E0E") hstored hne (by decide)
  refine ⟨putString g.packet 1 (ascii "E0E"), ?_⟩
  unfold readMemory
  refine run_get_bind.trans ?_
  dsimp only
  rw [if_neg (mt lt_memoryGetSize.1 h)]
  exact hlast

end

/-! ## The bytes written -/

/-- The bytes are in the memory from the address on, and all others are as before. -/
structure Written (mem mem' : Memory) (address : Nat) (bs : List Byte) : Prop where
  size : mem'.size = mem.size
  inside : ∀ i, (h : i < bs.length) → mem'.data (address + i) = bs[i]
  outside : ∀ j, j < address ∨ address + bs.length ≤ j → mem'.data j = mem.data j

section
variable {mem : Memory} {address : Word} {bs : List Byte}

/-- A byte inside the memory is written. -/
theorem memoryWriteByte_data (h : address.toNat < mem.size.toNat) (b : Byte) :
    (memoryWriteByte mem address b).2.data = Function.update mem.data address.toNat b := by
  have hzero : (address + BitVec.ofNat 32 0).toNat = address.toNat :=
    congrArg BitVec.toNat (BitVec.add_zero address)
  unfold memoryWriteByte
  rw [memoryCheck_byte.2 h]
  show Function.update mem.data (address + BitVec.ofNat 32 0).toNat b = _
  rw [hzero]

/-- A byte outside the memory is not written. -/
theorem memoryWriteByte_outside (h : ¬ address.toNat < mem.size.toNat) (b : Byte) :
    (memoryWriteByte mem address b).2 = mem := by
  have hcode := mt memoryCheck_byte.1 h
  unfold memoryWriteByte
  split
  · next hsuccess => exact absurd hsuccess hcode
  · rfl

/-- The address after that of a number is that of the next number. -/
theorem ofNat_add_one (k : Nat) : BitVec.ofNat 32 k + 1 = BitVec.ofNat 32 (k + 1) :=
  (BitVec.ofNat_add k 1).symm

/-- Bytes inside the memory are written at their addresses. -/
theorem written_putBytes {k : Nat} (h : k + bs.length ≤ mem.size.toNat)
    (hmax : k + bs.length ≤ 2 ^ 32) : Written mem (mem.putBytes (BitVec.ofNat 32 k) bs) k bs := by
  induction bs generalizing mem k with
  | nil => exact ⟨rfl, fun i hi => absurd hi (Nat.not_lt_zero i), fun j _ => rfl⟩
  | cons b bs ih =>
    rw [List.length_cons] at h hmax
    have hk : (BitVec.ofNat 32 k).toNat = k := by
      rw [BitVec.toNat_ofNat]
      omega
    have hsize := memoryWriteByte_size mem (BitVec.ofNat 32 k) b
    have hin : (BitVec.ofNat 32 k).toNat < mem.size.toNat := by omega
    have hdata := memoryWriteByte_data hin b
    rw [hk] at hdata
    have hrest : k + 1 + bs.length ≤ (memoryWriteByte mem (BitVec.ofNat 32 k) b).2.size.toNat := by
      rw [hsize]
      omega
    obtain ⟨hsize', hinside, houtside⟩ := ih hrest (by omega)
    rw [Memory.putBytes, ofNat_add_one]
    refine ⟨hsize'.trans hsize, fun i hi => ?_, fun j hj => ?_⟩
    · cases i with
      | zero =>
        refine (houtside k (.inl (Nat.lt_succ_self k))).trans ?_
        rw [hdata]
        exact Function.update_self _ _ _
      | succ i =>
        have hadd : k + (i + 1) = k + 1 + i := by omega
        rw [hadd]
        exact hinside i (Nat.lt_of_succ_lt_succ hi)
    · rw [List.length_cons] at hj
      rw [houtside j (by omega), hdata]
      exact Function.update_of_ne (by omega) _ _

/-- The first byte behind the memory is not put, so that it may be given or not. -/
theorem putBytes_take {k m : Nat} (hk : k + m = mem.size.toNat) (hmax : mem.size.toNat < 2 ^ 32) :
    mem.putBytes (BitVec.ofNat 32 k) (bs.take (m + 1)) =
      mem.putBytes (BitVec.ofNat 32 k) (bs.take m) := by
  induction m generalizing mem k bs with
  | zero =>
    cases bs with
    | nil => rfl
    | cons b bs =>
      refine memoryWriteByte_outside ?_ b
      rw [BitVec.toNat_ofNat]
      omega
  | succ m ih =>
    cases bs with
    | nil => rfl
    | cons b bs =>
      have hsize := memoryWriteByte_size mem (BitVec.ofNat 32 k) b
      rw [List.take_succ_cons, List.take_succ_cons, Memory.putBytes, Memory.putBytes, ofNat_add_one]
      refine ih ?_ ?_
      · rw [hsize]
        omega
      · rw [hsize]
        exact hmax

/-- A read of these bytes answers their digits. -/
theorem readText_of_written {mem' : Memory} {k : Nat} (hw : Written mem mem' k bs)
    (h : k + bs.length ≤ mem.size.toNat) (hmax : k + bs.length ≤ 2 ^ 32) (value : Byte) :
    readText mem' (BitVec.ofNat 32 k) value bs.length =
      bs.flatMap fun b => formatHex 2 b.toNat := by
  obtain ⟨hsize, hinside, -⟩ := hw
  induction bs generalizing k value with
  | nil => rfl
  | cons b bs ih =>
    rw [List.length_cons] at h hmax
    have hk : (BitVec.ofNat 32 k).toNat = k := by
      rw [BitVec.toNat_ofNat]
      omega
    have hcheck : memoryCheck mem' 0 (BitVec.ofNat 32 k) = .success := by
      rw [memoryCheck_byte, hk, hsize]
      omega
    have hread : (memoryReadByte mem' (BitVec.ofNat 32 k) value).2 = b := by
      unfold memoryReadByte
      rw [hcheck]
      show mem'.data (BitVec.ofNat 32 k + BitVec.ofNat 32 0).toNat = b
      rw [BitVec.add_zero, hk]
      exact hinside 0 (Nat.zero_lt_succ _)
    rw [List.length_cons, readText, hread, ofNat_add_one, List.flatMap_cons]
    rw [ih (k := k + 1) (by omega) (by omega) b fun i hi => ?_]
    have hadd : k + 1 + i = k + (i + 1) := by omega
    rw [hadd]
    exact hinside (i + 1) (Nat.succ_lt_succ hi)

end

/-! ## The packets -/

/-- The bytes that GDB escapes. -/
def isSpecial (b : Byte) : Bool := b = Ascii.hash || b = Ascii.dollar || b = Ascii.escape

/-- The bytes as they stand in a packet. -/
def escapeBytes (bs : List Byte) : List Byte :=
  Escape.encode Ascii.escape (· ^^^ 0x20) isSpecial bs

/-- The payload `Xaddress,size:bytes`. -/
def writePayload (address size bs : List Byte) : List Byte :=
  Ascii.of 'X' :: (address ++ Ascii.comma :: (size ++ Ascii.colon :: escapeBytes bs))

/-- The payload `maddress,size`. -/
def readPayload (address size : List Byte) : List Byte :=
  Ascii.of 'm' :: (address ++ Ascii.comma :: size)

/-- No escaped byte begins or ends a packet. -/
theorem payloadByte_escapeBytes (bs : List Byte) : ∀ b ∈ escapeBytes bs, PayloadByte b := by
  intro b hb
  obtain ⟨c, -, hc⟩ := List.mem_flatMap.1 hb
  by_cases hs : isSpecial c = true
  · rw [if_pos hs] at hc
    simp only [isSpecial, Bool.or_eq_true, decide_eq_true_eq] at hs
    simp only [List.mem_cons, List.not_mem_nil, or_false] at hc
    rcases hs with (rfl | rfl) | rfl
    all_goals
      rcases hc with rfl | rfl
      · decide
      · decide
  · rw [if_neg hs] at hc
    rw [List.mem_singleton.1 hc]
    simp only [isSpecial, Bool.or_eq_true, decide_eq_true_eq, not_or] at hs
    exact ⟨hs.1.2, hs.1.1⟩

/-- The bit that an escape flips is flipped back. -/
theorem flip_flip (b : Byte) : b ^^^ 0x20 ^^^ 0x20 = b := by
  rw [BitVec.xor_assoc, BitVec.xor_self, BitVec.xor_zero]

section
variable {g : GdbData} {loc : GdbLocals} {address size : List Byte} {k n : Nat}

/-- The two numbers of a packet are read from its text. -/
theorem packet_numbers (loc : GdbLocals) (ha : Numeral address k) (hk : k < 2 ^ 32)
    (hs : Numeral size n) (hn : n < 2 ^ 32) {s : List Byte} (hend : EndsDigits s) :
    packetAddress loc (address ++ Ascii.comma :: (size ++ s)) = BitVec.ofNat 32 k ∧
      packetSize loc (address ++ Ascii.comma :: (size ++ s)) = BitVec.ofNat 32 n := by
  have hnumbers := ha.scanHexes_pair hk hs hn hend
  constructor
  · rw [packetAddress, hnumbers]
    rfl
  · rw [packetSize, hnumbers]
    rfl

/-- `write_memory_binary` finds the numbers and the bytes. -/
theorem run_writeMemoryBinary (g : GdbData) (loc : GdbLocals) (ha : Numeral address k)
    (hk : k < 2 ^ 32) (hn : Numeral size n) (hn' : n < 2 ^ 32) (s : List Byte) :
    ∃ data content, data.drop content = s ∧
      (writeMemoryBinary loc (address ++ Ascii.comma :: (size ++ Ascii.colon :: s))).run g =
        (writeLoop loc data content (BitVec.ofNat 32 k) (decide (k < g.arm.mem.size.toNat)) n >>=
          fun writeOk =>
            if writeOk then sendData (ascii "OK") else sendData (ascii "E02")).run g := by
  let data := address ++ Ascii.comma :: (size ++ Ascii.colon :: s)
  let pre := address ++ Ascii.comma :: size
  have hdata : data = pre ++ Ascii.colon :: s := by simp [data, pre]
  have hpre : ∀ b ∈ pre, b ≠ Ascii.nul ∧ b ≠ Ascii.colon := by
    intro b hb
    rcases List.mem_append.1 hb with hb | hb
    · exact ⟨ha.ne (by decide) b hb, ha.ne (by decide) b hb⟩
    · rcases List.mem_cons.1 hb with rfl | hb
      · decide
      · exact ⟨hn.ne (by decide) b hb, hn.ne (by decide) b hb⟩
  obtain ⟨haddress, hsize⟩ := packet_numbers loc ha hk hn hn' (s := Ascii.colon :: s)
    (endsDigits_cons (by decide))
  have hindex : (index data Ascii.colon).run g = .ok (pre.length, g) := by
    rw [hdata]
    exact run_index hpre (by decide)
  have hin : decide ((BitVec.ofNat 32 k).setWidth 64 < memoryGetSize g.arm.mem) =
      decide (k < g.arm.mem.size.toNat) := by
    rw [decide_eq_decide, lt_memoryGetSize, BitVec.toNat_ofNat, Nat.mod_eq_of_lt hk]
  have hdrop : data.drop (pre.length + 1) = s := by
    rw [hdata, ← List.drop_drop, List.drop_left]
    rfl
  refine ⟨data, pre.length + 1, hdrop, ?_⟩
  unfold writeMemoryBinary
  refine (run_bind_ok hindex).trans (run_get_bind.trans ?_)
  show StateT.run (writeLoop loc data (pre.length + 1) (packetAddress loc data) (decide _)
    (packetSize loc data).toNat >>= _) g = _
  rw [haddress, hsize, hin, BitVec.toNat_ofNat, Nat.mod_eq_of_lt hn']

/-- The analysis of an `X` packet calls `write_memory_binary`. -/
theorem handle_writePayload (endianess c d : Byte) (bs : List Byte) :
    handle loc endianess (received (writePayload address size bs) c d) =
      writeMemoryBinary loc (address ++ Ascii.comma :: (size ++ Ascii.colon ::
        (escapeBytes bs ++ [Ascii.nul, c, d, Ascii.nul]))) := by
  have hdata : packetData (address ++ Ascii.comma :: (size ++ Ascii.colon :: escapeBytes bs)) c d =
      address ++ Ascii.comma :: (size ++ Ascii.colon ::
        (escapeBytes bs ++ [Ascii.nul, c, d, Ascii.nul])) := by
    simp [packetData]
  rw [← hdata]
  rfl

/-- The handler of an `m` packet is `read_memory`. -/
theorem handle_readPayload (endianess c d : Byte) :
    handle loc endianess (received (readPayload address size) c d) =
      readMemory loc (address ++ Ascii.comma :: (size ++ [Ascii.nul, c, d, Ascii.nul])) := by
  have hdata : packetData (address ++ Ascii.comma :: size) c d =
      address ++ Ascii.comma :: (size ++ [Ascii.nul, c, d, Ascii.nul]) := by
    simp [packetData]
  rw [← hdata]
  rfl

/-- An `X` packet whose bytes fit in the memory writes them and answers `OK`. -/
theorem run_writePayload {bs : List Byte} (ha : Numeral address k) (hk : k < 2 ^ 32)
    (hs : Numeral size bs.length) (hin : k < g.arm.mem.size.toNat)
    (hend : k + bs.length ≤ g.arm.mem.size.toNat) (hmax : k + bs.length ≤ 2 ^ 32)
    (hlen : bs.length < 2 ^ 32) (endianess c d : Byte) :
    ∃ mem packet, (handle loc endianess (received (writePayload address size bs) c d)).run g =
        .ok ((), (g.withMem mem).answered packet (ascii "OK")) ∧
      Written g.arm.mem mem k bs := by
  have hkey : (BitVec.ofNat 32 k).toNat = k := by
    rw [BitVec.toNat_ofNat, Nat.mod_eq_of_lt hk]
  obtain ⟨data, content, hdrop, hrun⟩ := run_writeMemoryBinary g loc ha hk hs hlen
    (escapeBytes bs ++ [Ascii.nul, c, d, Ascii.nul])
  have hrounds : rounds g.arm.mem (BitVec.ofNat 32 k) bs.length = bs.length := by
    rw [rounds, hkey]
    split_ifs
    · omega
    · rfl
  have hdecode : decodeBytes (rounds g.arm.mem (BitVec.ofNat 32 k) bs.length)
      (data.drop content) = some bs := by
    rw [hrounds, hdrop]
    exact Escape.decode_encode flip_flip (by decide) bs _
  have hloop := run_writeLoop loc (g := g) (by rw [hkey]; omega) hdecode
  rw [hkey, decide_eq_true fun _ => hend] at hloop
  refine ⟨_, putString g.packet 1 (ascii "OK"), ?_, written_putBytes hend (by omega)⟩
  rw [handle_writePayload, hrun, decide_eq_true hin, run_bind_ok hloop]
  exact run_sendText (by decide) (by decide)

/-- An `X` packet whose bytes do not fit writes those inside and answers `E02`. -/
theorem run_writePayload_outside {bs : List Byte} (ha : Numeral address k) (hk : k < 2 ^ 32)
    (hs : Numeral size bs.length) (hend : g.arm.mem.size.toNat < k + bs.length)
    (hmax : g.arm.mem.size.toNat < 2 ^ 32) (hlen : bs.length < 2 ^ 32) (endianess c d : Byte) :
    ∃ mem packet, (handle loc endianess (received (writePayload address size bs) c d)).run g =
        .ok ((), (g.withMem mem).answered packet (ascii "E02")) ∧
      Written g.arm.mem mem k (bs.take (g.arm.mem.size.toNat - k)) := by
  have hkey : (BitVec.ofNat 32 k).toNat = k := by
    rw [BitVec.toNat_ofNat, Nat.mod_eq_of_lt hk]
  obtain ⟨data, content, hdrop, hrun⟩ := run_writeMemoryBinary g loc ha hk hs hlen
    (escapeBytes bs ++ [Ascii.nul, c, d, Ascii.nul])
  have htake : (bs.take (g.arm.mem.size.toNat - k)).length = g.arm.mem.size.toNat - k := by
    rw [List.length_take]
    omega
  by_cases hin : k < g.arm.mem.size.toNat
  · -- the loop ends with the first byte outside
    obtain ⟨m, hm⟩ : ∃ m, k + m = g.arm.mem.size.toNat := ⟨_, Nat.add_sub_of_le (Nat.le_of_lt hin)⟩
    have hsub : g.arm.mem.size.toNat - k = m := by omega
    have hrounds : rounds g.arm.mem (BitVec.ofNat 32 k) bs.length = m + 1 := by
      rw [rounds, hkey, if_pos hmax]
      omega
    have hdecode : decodeBytes (rounds g.arm.mem (BitVec.ofNat 32 k) bs.length)
        (data.drop content) = some (bs.take (m + 1)) := by
      rw [hrounds, hdrop]
      exact Escape.decode_encode_take flip_flip (by decide) (by omega) _
    have hloop := run_writeLoop loc (g := g) (by rw [hkey]; omega) hdecode
    rw [hkey, decide_eq_false (fun h => absurd (h hmax) (by omega)), putBytes_take hm hmax] at hloop
    rw [hsub] at htake ⊢
    refine ⟨_, putString g.packet 1 (ascii "E02"), ?_, written_putBytes (by omega) (by omega)⟩
    rw [handle_writePayload, hrun, decide_eq_true hin, run_bind_ok hloop]
    exact run_sendText (by decide) (by decide)
  · have hsub : g.arm.mem.size.toNat - k = 0 := by omega
    rw [hsub]
    refine ⟨g.arm.mem, putString g.packet 1 (ascii "E02"), ?_, rfl,
      fun i hi => absurd hi (Nat.not_lt_zero i), fun _ _ => rfl⟩
    rw [handle_writePayload, hrun, decide_eq_false hin, run_bind_ok run_writeLoop_false]
    exact run_sendText (by decide) (by decide)

/-- An `m` packet whose answer fits is answered with the digits of the bytes. -/
theorem run_readPayload {n : Nat} (ha : Numeral address k) (hk : k < 2 ^ 32) (hs : Numeral size n)
    (hin : k < g.arm.mem.size.toNat) (hn : n ≤ 2045) (endianess c d : Byte) :
    ∃ packet, (handle loc endianess (received (readPayload address size) c d)).run g =
      .ok ((), g.answered packet (readText g.arm.mem (BitVec.ofNat 32 k) loc.octet n)) := by
  have hlt : n < 2 ^ 32 := by omega
  obtain ⟨haddress, hsize⟩ := packet_numbers loc ha hk hs hlt
    (s := [Ascii.nul, c, d, Ascii.nul]) (endsDigits_cons (by decide))
  obtain ⟨packet, hrun⟩ := run_readMemory g loc _ (by
    rw [haddress, BitVec.toNat_ofNat, Nat.mod_eq_of_lt hk]
    exact hin) (by
    rw [hsize, BitVec.toNat_ofNat, Nat.mod_eq_of_lt hlt]
    exact hn)
  rw [memoryText, haddress, hsize, BitVec.toNat_ofNat, Nat.mod_eq_of_lt hlt] at hrun
  rw [handle_readPayload]
  exact ⟨packet, hrun⟩

/-- **Writing the memory and reading it back.** Bytes that fit in the memory are written by an `X`
packet, which changes nothing else and answers `OK`, and an `m` packet answers them; of bytes that
do not fit those inside are written, and the answer is `E02`. -/
theorem memory_packets (endianess c d : Byte) {bs : List Byte} (ha : Numeral address k)
    (hk : k < 2 ^ 32) (hs : Numeral size bs.length) (hlen : bs.length < 2 ^ 32) :
    (k < g.arm.mem.size.toNat → k + bs.length ≤ g.arm.mem.size.toNat → bs.length ≤ 2045 →
      k + bs.length ≤ 2 ^ 32 →
      ∃ mem packet g', g' = (g.withMem mem).answered packet (ascii "OK") ∧
        (handle loc endianess (received (writePayload address size bs) c d)).run g = .ok ((), g') ∧
        Written g.arm.mem mem k bs ∧
        ∀ loc' address' size' c' d', Numeral address' k → Numeral size' bs.length →
          ∃ packet', (handle loc' endianess (received (readPayload address' size') c' d')).run g' =
            .ok ((), g'.answered packet' (bs.flatMap fun b => formatHex 2 b.toNat))) ∧
    (g.arm.mem.size.toNat < k + bs.length → g.arm.mem.size.toNat < 2 ^ 32 →
      ∃ mem packet, (handle loc endianess (received (writePayload address size bs) c d)).run g =
          .ok ((), (g.withMem mem).answered packet (ascii "E02")) ∧
        Written g.arm.mem mem k (bs.take (g.arm.mem.size.toNat - k))) := by
  refine ⟨fun hin hend hfits hmax => ?_, fun hend hmax => ?_⟩
  · obtain ⟨mem, packet, hrun, hw⟩ := run_writePayload ha hk hs hin hend hmax hlen endianess c d
    refine ⟨mem, packet, _, rfl, hrun, hw, fun loc' address' size' c' d' ha' hs' => ?_⟩
    obtain ⟨packet', hread⟩ := @run_readPayload ((g.withMem mem).answered packet (ascii "OK")) loc'
      _ _ k _ ha' hk hs' (hw.size.symm ▸ hin) hfits endianess c' d'
    refine ⟨packet', hread.trans ?_⟩
    exact congrArg (fun text => Except.ok ((), GdbData.answered _ packet' text))
      (readText_of_written hw hend hmax loc'.octet)
  · exact run_writePayload_outside ha hk hs hend hmax hlen endianess c d

/-- GDB connected to a simulator with 8 bytes of memory. -/
def eightBytes : GdbData :=
  gdbInitData (.initial 0x1d3 (.ofWords [0, 0])) (fun _ => 0) (fun _ => 0)

/-- Three bytes, two of them escaped, inside the memory and across its end. -/
theorem memory_packets_eightBytes :
    (∃ mem packet g', g' = (eightBytes.withMem mem).answered packet (ascii "OK") ∧
      (handle .zero 0 (received (writePayload (ascii "2") (ascii "3") [0x23, 0x00, 0x7D])
        (Ascii.of '0') (Ascii.of '0'))).run eightBytes = .ok ((), g') ∧
      Written eightBytes.arm.mem mem 2 [0x23, 0x00, 0x7D] ∧
      ∃ packet', (handle .zero 0 (received (readPayload (ascii "02") (ascii "03"))
        (Ascii.of '0') (Ascii.of '0'))).run g' =
          .ok ((), g'.answered packet' (ascii "23007d"))) ∧
    ∃ mem packet, (handle .zero 0
        (received (writePayload (ascii "6") (ascii "3") [0x23, 0x00, 0x7D])
          (Ascii.of '0') (Ascii.of '0'))).run eightBytes =
          .ok ((), (eightBytes.withMem mem).answered packet (ascii "E02")) ∧
      Written eightBytes.arm.mem mem 6 [0x23, 0x00] := by
  let bs : List Byte := [0x23, 0x00, 0x7D]
  have hsize : Numeral (ascii "3") bs.length := ⟨by decide, by decide, by decide⟩
  have hpadded : Numeral (ascii "03") bs.length := ⟨by decide, by decide, by decide⟩
  have hinside : Numeral (ascii "2") 2 := ⟨by decide, by decide, by decide⟩
  have hinside' : Numeral (ascii "02") 2 := ⟨by decide, by decide, by decide⟩
  have hacross : Numeral (ascii "6") 6 := ⟨by decide, by decide, by decide⟩
  constructor
  · obtain ⟨mem, packet, g', hg, hrun, hw, hread⟩ :=
      (@memory_packets eightBytes .zero _ _ _ 0 (Ascii.of '0') (Ascii.of '0') _ hinside (by decide)
        hsize (by decide)).1 (by decide) (by decide) (by decide) (by decide)
    exact ⟨mem, packet, g', hg, hrun, hw, hread .zero _ _ _ _ hinside' hpadded⟩
  · exact (@memory_packets eightBytes .zero _ _ _ 0 (Ascii.of '0') (Ascii.of '0') _ hacross
      (by decide) hsize (by decide)).2 (by decide) (by decide)

end

/-- GDB connected to a simulator with a memory of this size that holds zeros. -/
def zeros (size : BitVec 64) : GdbData :=
  gdbInitData (.initial 0x1d3 ⟨fun _ => 0, size⟩) (fun _ => 0) (fun _ => 0)

/-- An `X` packet with two bytes for the last address that there is. -/
def lastAddress : List Byte :=
  received (writePayload (ascii "ffffffff") (ascii "2") [0x41, 0x42]) (Ascii.of '0') (Ascii.of '0')

/-- In a memory that goes on after the last address the second byte is written to address 0, and the
answer is `OK`. -/
theorem run_lastAddress {size : BitVec 64} (h : size = 0x100000000 ∨ size = 0x100000001) :
    ∃ g', (handle .zero 0 lastAddress).run (zeros size) = .ok ((), g') ∧
      g'.sent = frame (ascii "OK") ∧ g'.arm.mem.data 0 = 0x42 ∧
        g'.arm.mem.data 0x100000000 = 0 := by
  have hrun : (((handle .zero 0 lastAddress).run (zeros size)).toOption.map fun r =>
      (r.2.sent, r.2.arm.mem.data 0, r.2.arm.mem.data 0x100000000)) =
        some (frame (ascii "OK"), 0x42, 0) := by
    rcases h with rfl | rfl
    · decide +kernel
    · decide +kernel
  cases hhandle : (handle .zero 0 lastAddress).run (zeros size) with
  | error e =>
    rw [hhandle] at hrun
    cases hrun
  | ok r =>
    rw [hhandle] at hrun
    obtain ⟨hsent, hdata⟩ := Prod.mk.inj (Option.some.inj hrun)
    obtain ⟨hzero, hend⟩ := Prod.mk.inj hdata
    exact ⟨r.2, rfl, hsent, hzero, hend⟩

/-- Two bytes for the last address do not fit in a memory of 2^32 bytes, but the answer is not
`E02`; they fit in one of 2^32 + 1 bytes, but are not both written. -/
theorem memory_packets_fails :
    ((zeros 0x100000000).arm.mem.size.toNat < 0xFFFFFFFF + [0x41, 0x42].length ∧
      ¬ ∃ mem packet, (handle .zero 0 lastAddress).run (zeros 0x100000000) =
          .ok ((), ((zeros 0x100000000).withMem mem).answered packet (ascii "E02")) ∧
        Written (zeros 0x100000000).arm.mem mem 0xFFFFFFFF [0x41]) ∧
    0xFFFFFFFF + [0x41, 0x42].length ≤ (zeros 0x100000001).arm.mem.size.toNat ∧
      ¬ ∃ mem packet, (handle .zero 0 lastAddress).run (zeros 0x100000001) =
          .ok ((), ((zeros 0x100000001).withMem mem).answered packet (ascii "OK")) ∧
        Written (zeros 0x100000001).arm.mem mem 0xFFFFFFFF [0x41, 0x42] := by
  refine ⟨⟨by decide, ?_⟩, by decide, ?_⟩
  · rintro ⟨mem, packet, hrun, -⟩
    obtain ⟨g', hrun', hsent, -⟩ := run_lastAddress (.inl rfl)
    cases hrun.symm.trans hrun'
    exact absurd (show frame (ascii "E02") = frame (ascii "OK") from hsent) (by decide)
  · rintro ⟨mem, packet, hrun, hwritten⟩
    obtain ⟨g', hrun', -, -, hend⟩ := run_lastAddress (.inr rfl)
    cases hrun.symm.trans hrun'
    exact absurd ((hwritten.inside 1 (by decide)).symm.trans hend) (by decide)

end Gdb

end ArmSimulator
