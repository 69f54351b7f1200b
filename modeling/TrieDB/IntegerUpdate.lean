import TrieDB.Server

/-!
The arithmetic of INC and DEC: `parse_int` and `update_integer_string` of
`util.c` for a single key, `trie_node_integer_mod` of `db.c` for a prefix. Both
parse into an `int`, step by one in `int` and print the result with `%d`; a
string `is_integer` accepts denotes a natural number of any size, so the step
is exact only while that number and the stepped one fit in 32 bits.
-/
namespace TrieDB

def decimalValue (bs : List UInt8) : Nat := bs.foldl (fun n c => n * 10 + (c.toNat - 48)) 0

theorem decimalValue_decimalDigits (m : Nat) : decimalValue (decimalDigits m) = m := by
  simpa [decimalValue] using foldl_decimalDigits m 0

theorem foldl_parse_ofNat (ds : List UInt8) (acc : Nat) :
    ds.foldl (fun n c => n * 10 + Int32.ofNat (c.toNat - 48)) (Int32.ofNat acc) =
      Int32.ofNat (ds.foldl (fun n c => n * 10 + (c.toNat - 48)) acc) := by
  induction ds generalizing acc with
  | nil => rfl
  | cons d ds ih =>
    have step : Int32.ofNat acc * 10 + Int32.ofNat (d.toNat - 48) =
        Int32.ofNat (acc * 10 + (d.toNat - 48)) := by
      rw [Int32.ofNat_add, Int32.ofNat_mul]
      rfl
    simp only [List.foldl_cons, step]
    exact ih _

theorem parseInt_of_isInteger {s : CStr} (integer : isInteger s = true) :
    parseInt s = Int32.ofNat (decimalValue s.bytes) := by
  have whole : s.bytes.takeWhile isDigit = s.bytes :=
    List.takeWhile_eq_self_iff.mpr (by simpa [isInteger] using integer)
  rw [parseInt, whole]
  exact foldl_parse_ofNat s.bytes 0

theorem bytes_formatInt (n : Int32) : (formatInt n).bytes = printDecimal n.toInt := by
  unfold formatInt printDecimal
  split_ifs <;> rfl

/-- The step of INC (`inc`) or DEC, as `update_integer_string` adds it. -/
def unitStep (inc : Bool) : Int32 := if inc then 1 else -1

theorem toInt_unitStep (inc : Bool) : (unitStep inc).toInt = if inc then 1 else -1 := by
  cases inc <;> rfl

theorem integerMod_data {item : DbItem} (integer : isInteger item.data = true) (inc : Bool)
    (now : Int) :
    (integerMod inc now item).data = updateIntegerString item.data (unitStep inc) := by
  cases inc <;> simp [integerMod, integer, updateIntegerString, unitStep, Int32.sub_eq_add_neg]

theorem toInt_ofNat_add_unitStep {v : Nat} {inc : Bool} (parsed : v < 2 ^ 31)
    (stepped : (v : Int) + (if inc then 1 else -1) < 2 ^ 31) :
    (Int32.ofNat v + unitStep inc).toInt = v + (if inc then 1 else -1) := by
  have half : (2 : Nat) ^ 31 = 2147483648 := rfl
  have half' : (2 : Int) ^ 31 = 2147483648 := rfl
  have full : ((2 : Nat) ^ 32 : Nat) = 4294967296 := rfl
  rw [Int32.toInt_add, Int32.toInt_ofNat_of_lt parsed, toInt_unitStep]
  rw [half] at parsed
  rw [half'] at stepped
  apply Int.bmod_eq_of_le <;> split_ifs at stepped ⊢ <;> simp only [full] <;> omega

theorem bytes_updateIntegerString_of_fits {s : CStr} (integer : isInteger s = true) (inc : Bool)
    (parsed : decimalValue s.bytes < 2 ^ 31)
    (stepped : (decimalValue s.bytes : Int) + (if inc then 1 else -1) < 2 ^ 31) :
    (updateIntegerString s (unitStep inc)).bytes =
      printDecimal (decimalValue s.bytes + if inc then 1 else -1) := by
  rw [updateIntegerString, bytes_formatInt, parseInt_of_isInteger integer,
    toInt_ofNat_add_unitStep parsed stepped]

theorem printDecimal_of_nonneg {n : Int} (nonneg : 0 ≤ n) : printDecimal n = decimalDigits n.toNat := by
  simp [printDecimal, not_lt.mpr nonneg]

theorem updateIntegerString_in_range {s : CStr} (integer : isInteger s = true) (inc : Bool)
    (parsed : decimalValue s.bytes < 2 ^ 31)
    (stepped : (decimalValue s.bytes : Int) + (if inc then 1 else -1) < 2 ^ 31)
    (nonneg : 0 ≤ (decimalValue s.bytes : Int) + (if inc then 1 else -1)) :
    isInteger (updateIntegerString s (unitStep inc)) = true ∧
      (decimalValue (updateIntegerString s (unitStep inc)).bytes : Int) =
        decimalValue s.bytes + (if inc then 1 else -1) := by
  have rendered := bytes_updateIntegerString_of_fits integer inc parsed stepped
  rw [printDecimal_of_nonneg nonneg] at rendered
  constructor
  · simp only [isInteger, rendered, List.all_eq_true]
    exact fun _ mem => isDigit_of_mem_decimalDigits mem
  · rw [rendered, decimalValue_decimalDigits, Int.toNat_of_nonneg nonneg]

/-- INC then DEC, or DEC then INC, of a digit string: the value comes back
when the first step neither goes below zero nor leaves `int`, in both forms. -/
theorem integerStep_round_trip (s : CStr) (integer : isInteger s = true) (inc : Bool)
    (positive : inc = true ∨ 0 < decimalValue s.bytes)
    (fits : decimalValue s.bytes + (if inc then 1 else 0) < 2 ^ 31) :
    isInteger (updateIntegerString s (unitStep inc)) = true ∧
      decimalValue (updateIntegerString (updateIntegerString s (unitStep inc)) (unitStep !inc)).bytes =
        decimalValue s.bytes ∧
      ∀ (item : DbItem) (now now' : Int), item.data = s →
        decimalValue (integerMod (!inc) now' (integerMod inc now item)).data.bytes =
          decimalValue s.bytes := by
  have bound : (2 : Nat) ^ 31 = 2147483648 := rfl
  have bound' : (2 : Int) ^ 31 = 2147483648 := rfl
  rw [bound] at fits
  have first := updateIntegerString_in_range integer inc (by rw [bound]; split_ifs at fits <;> omega)
    (by rw [bound']; split_ifs at fits ⊢ <;> omega) (by cases inc <;> simp at positive ⊢ <;> omega)
  have second := updateIntegerString_in_range first.1 (!inc)
    (by rw [bound]; have := first.2; cases inc <;> simp only [↓reduceIte, Bool.false_eq_true] at this fits <;> omega)
    (by rw [bound', first.2]; cases inc <;> simp <;> omega)
    (by rw [first.2]; cases inc <;> simp)
  have back : decimalValue (updateIntegerString (updateIntegerString s (unitStep inc))
      (unitStep !inc)).bytes = decimalValue s.bytes := by
    have value := second.2
    rw [first.2] at value
    cases inc <;> simp only [↓reduceIte, Bool.false_eq_true, Bool.not_true, Bool.not_false] at value ⊢ <;> omega
  refine ⟨first.1, back, fun item now now' same => ?_⟩
  subst same
  have once := integerMod_data integer inc now
  rw [integerMod_data (once ▸ first.1) (!inc) now', once]
  exact back

theorem integerStep_round_trip_41 :
    isInteger ⟨[52, 49], by decide⟩ = true ∧ (false = true ∨ 0 < decimalValue [52, 49]) ∧
      decimalValue [52, 49] + (if false then 1 else 0) < 2 ^ 31 ∧
      (isInteger (updateIntegerString ⟨[52, 49], by decide⟩ (unitStep false)) = true ∧
        decimalValue (updateIntegerString (updateIntegerString ⟨[52, 49], by decide⟩
          (unitStep false)) (unitStep !false)).bytes = decimalValue [52, 49] ∧
        ∀ (item : DbItem) (now now' : Int), item.data = ⟨[52, 49], by decide⟩ →
          decimalValue (integerMod (!false) now' (integerMod false now item)).data.bytes =
            decimalValue [52, 49]) :=
  ⟨by decide, by decide, by decide,
    integerStep_round_trip ⟨[52, 49], by decide⟩ (by decide) false (by decide) (by decide)⟩

/-- DEC of `"0"` stores `"-1"`, which `is_integer` rejects, so the INC after it
changes nothing: in the branch of `dec_handler` and `inc_handler` for one key,
and in the prefix walk. -/
theorem decThenInc_sticks_at_minus_one :
    ((integerUpdate (-1) ⟨[some ⟨-1, ⟨[48], by decide⟩, 0, 0⟩]⟩
          ⟨CStr.empty, ⟨none, ⟨0, .node 97 1 .nil .nil ⟨97, .nil, some 0⟩, none⟩, 1⟩⟩
          ⟨[97], by decide⟩ 0).bind fun items =>
        integerUpdate 1 items ⟨CStr.empty, ⟨none, ⟨0, .node 97 1 .nil .nil ⟨97, .nil, some 0⟩, none⟩, 1⟩⟩
          ⟨[97], by decide⟩ 0).map (fun items => (items.load 0).map (·.data.bytes)) =
        some (some [45, 49]) ∧
      ∀ (item : DbItem) (now now' : Int), item.data = ⟨[48], by decide⟩ →
        (integerMod true now' (integerMod false now item)).data.bytes = [45, 49] := by
  refine ⟨by decide, fun item now now' zero => ?_⟩
  have dec := integerMod_data (show isInteger item.data = true by rw [zero]; decide) false now
  have minusOne : (integerMod false now item).data.bytes = [45, 49] := by
    rw [dec, zero]
    decide
  have rejected : isInteger (integerMod false now item).data = false := by
    rw [isInteger, minusOne]
    decide
  rw [integerMod, if_neg (by rw [rejected]; decide)]
  exact minusOne

/-- `"2147483647"`, `INT_MAX`: INC overflows `int` and stores `"-2147483648"`. -/
theorem integerStep_wraps_at_int_max :
    isInteger ⟨[50, 49, 52, 55, 52, 56, 51, 54, 52, 55], by decide⟩ = true ∧
      (updateIntegerString ⟨[50, 49, 52, 55, 52, 56, 51, 54, 52, 55], by decide⟩
          (unitStep true)).bytes = [45, 50, 49, 52, 55, 52, 56, 51, 54, 52, 56] ∧
      printDecimal (decimalValue [50, 49, 52, 55, 52, 56, 51, 54, 52, 55] + 1) =
        [50, 49, 52, 55, 52, 56, 51, 54, 52, 56] := by
  decide

end TrieDB
