import ArmSimulator.MemoryPackets
import ArmSimulator.RegisterPackets

/-!
# Memory dumps

An `m` packet should answer the bytes up to the end of the memory. The loop of `read_memory` goes on
until a read returns -1, and no exit code is -1: `memory_read_byte` returns INDEX_OUT_OF_RANGE,
which is 8. So the answer has as many bytes as the packet asks for, the last one of the memory again
and again. `dumps_iff` says when there are as many to read.
-/

namespace ArmSimulator

/-- The digits of the `n` bytes from the address on. -/
def Memory.digits (mem : Memory) (address n : Nat) : List Byte :=
  (List.range n).flatMap fun i => formatHex 2 (mem.data (address + i)).toNat

namespace Gdb

/-- The answer to an `m` packet is the bytes of the memory from the address on, `n` of them or fewer
where the memory ends. -/
def Dumps (m : HandlerM Unit) (g : GdbData) (address n : Nat) : Prop :=
  Answers m g (g.arm.mem.digits address (min n (g.arm.mem.size.toNat - address)))

/-- The text of reads inside the memory; the addresses of the reads wrap around at `2 ^ 32`. -/
theorem readText_inside {mem : Memory} {k n : Nat} (h : k + n ≤ mem.size.toNat) (value : Byte) :
    readText mem (BitVec.ofNat 32 k) value n =
      (List.range n).flatMap fun i => formatHex 2 (mem.data ((k + i) % 2 ^ 32)).toNat := by
  induction n generalizing k value with
  | zero => rfl
  | succ n ih =>
    have hcheck : memoryCheck mem 0 (BitVec.ofNat 32 k) = .success := by
      rw [memoryCheck_byte, BitVec.toNat_ofNat]
      omega
    have hread : (memoryReadByte mem (BitVec.ofNat 32 k) value).2 = mem.data (k % 2 ^ 32) := by
      unfold memoryReadByte
      rw [hcheck]
      show mem.data (BitVec.ofNat 32 k + BitVec.ofNat 32 0).toNat = _
      rw [BitVec.add_zero, BitVec.toNat_ofNat]
    rw [readText, hread, ofNat_add_one, ih (by omega), List.range_succ_eq_map, List.flatMap_cons,
      List.flatMap_map]
    refine congrArg _ (List.flatMap_congr fun i _ => ?_)
    rw [Nat.add_assoc, Nat.add_comm 1 i]

/-- The condition for an answer of `n` bytes: the memory has them, and where their addresses wrap
around it has the same bytes there. -/
def Dumpable (mem : Memory) (address n : Nat) : Prop :=
  address + n ≤ mem.size.toNat ∧
    ∀ i < n, mem.data ((address + i) % 2 ^ 32) = mem.data (address + i)

/-- The text of the loop is that of the bytes of the memory if there are so many. -/
theorem readText_eq_digits_iff {mem : Memory} {k n : Nat} (hk : k < mem.size.toNat)
    (value : Byte) :
    readText mem (BitVec.ofNat 32 k) value n = mem.digits k (min n (mem.size.toNat - k)) ↔
      Dumpable mem k n := by
  have hlen : ∀ n, (mem.digits k n).length = n * 2 := fun n => by
    rw [Memory.digits, length_flatMap_const fun _ _ => length_formatHex 2 _, List.length_range]
  constructor
  · intro h
    have hlength := congrArg List.length h
    rw [length_readText, hlen] at hlength
    have hend : k + n ≤ mem.size.toNat := by omega
    refine ⟨hend, fun i hi => ?_⟩
    rw [readText_inside hend, Nat.min_eq_left (by omega)] at h
    refine formatHex_inj (n := 2) rfl (flatMap_inj (fun _ _ => ?_) h i (List.mem_range.2 hi))
    rw [length_formatHex, length_formatHex]
  · rintro ⟨hend, hdata⟩
    rw [readText_inside hend, Nat.min_eq_left (by omega)]
    exact List.flatMap_congr fun i hi => by rw [hdata i (List.mem_range.1 hi)]

/-- **Memory dumps** are right if and only if the bytes asked for lie in the memory. -/
theorem dumps_iff {g : GdbData} {loc : GdbLocals} {address size : List Byte} {k n : Nat}
    (endianess c d : Byte) (ha : Numeral address k) (hk : k < 2 ^ 32) (hs : Numeral size n)
    (hin : k < g.arm.mem.size.toNat) (hn : n ≤ 2045) :
    Dumps (handle loc endianess (received (readPayload address size) c d)) g k n ↔
      Dumpable g.arm.mem k n := by
  rw [← readText_eq_digits_iff hin loc.octet]
  have hanswer : Answers (handle loc endianess (received (readPayload address size) c d)) g
      (readText g.arm.mem (BitVec.ofNat 32 k) loc.octet n) :=
    run_readPayload ha hk hs hin hn endianess c d
  constructor
  · exact fun h => hanswer.unique h
  · intro h
    rw [Dumps, ← h]
    exact hanswer

/-- Two bytes at the end of a memory of 8 bytes are answered as they are. -/
theorem dumps_eightBytes :
    Dumps (handle .zero 0 (received (readPayload (ascii "6") (ascii "2")) (Ascii.of '0')
      (Ascii.of '0'))) eightBytes 6 2 := by
  have hend : 6 + 2 ≤ eightBytes.arm.mem.size.toNat := by decide
  refine (dumps_iff 0 (Ascii.of '0') (Ascii.of '0') ⟨by decide, by decide, by decide⟩ (by decide)
    ⟨by decide, by decide, by decide⟩ (by decide) (by decide)).2 ⟨hend, fun i hi => ?_⟩
  rw [Nat.mod_eq_of_lt (by omega)]

/-- Three bytes across its end are answered with six digits, where it has two bytes. -/
theorem dumps_eightBytes_fails :
    let packet := received (readPayload (ascii "6") (ascii "3")) (Ascii.of '0') (Ascii.of '0')
    Answers (handle .zero 0 packet) eightBytes (ascii "000000") ∧
      eightBytes.arm.mem.digits 6 (min 3 (eightBytes.arm.mem.size.toNat - 6)) = ascii "0000" ∧
      ¬ Dumps (handle .zero 0 packet) eightBytes 6 3 := by
  intro packet
  have ha : Numeral (ascii "6") 6 := ⟨by decide, by decide, by decide⟩
  have hs : Numeral (ascii "3") 3 := ⟨by decide, by decide, by decide⟩
  have htext : readText eightBytes.arm.mem (BitVec.ofNat 32 6) GdbLocals.zero.octet 3 =
      ascii "000000" := by decide
  have hanswer : Answers (handle .zero 0 packet) eightBytes (ascii "000000") := by
    rw [← htext]
    exact run_readPayload ha (by decide) hs (by decide) (by decide) 0 _ _
  refine ⟨hanswer, by decide, fun h => ?_⟩
  exact absurd (hanswer.unique h) (by decide)

end Gdb

end ArmSimulator
