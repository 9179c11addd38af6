import Reckon.Text.Position

/-!
# Byte positions

The byte position of a place is the length of the UTF-8 form of what stands before it. So byte
positions grow with places, and the bytes between two of them are the form of the characters between
the two places.
-/

set_option autoImplicit false

namespace Reckon.Text

def byteOffset (text : Array Char) (place : Nat) : Nat :=
  (byteOffsets text).getD place 0

theorem size_utf8_encode_cons (c : Char) (cs : List Char) :
    (c :: cs).utf8Encode.size = c.utf8Size + cs.utf8Encode.size := by
  rw [List.utf8Encode_cons, ByteArray.size_append, List.utf8Encode_singleton]
  simp

theorem byte_offsets_from_get_d (offset : Nat) (cs : List Char) (place : Nat)
    (inside : place ≤ cs.length) :
    (byteOffsetsFrom offset cs).getD place 0 = offset + (cs.take place).utf8Encode.size := by
  induction cs generalizing offset place with
  | nil =>
      have first : place = 0 := by simpa using inside
      subst first
      simp [byteOffsetsFrom]
  | cons c cs ih =>
      cases place with
      | zero => simp [byteOffsetsFrom]
      | succ place =>
          rw [byteOffsetsFrom, List.getD_cons_succ, ih _ place (by simpa using inside),
            List.take_succ_cons, size_utf8_encode_cons]
          omega

theorem byte_offset_eq (text : Array Char) (place : Nat) (inside : place ≤ text.size) :
    byteOffset text place = (text.toList.take place).utf8Encode.size := by
  have before := byte_offsets_from_get_d 0 text.toList place (by simpa using inside)
  simpa [byteOffset, byteOffsets] using before

theorem utf8_encode_take (cs : List Char) {first second : Nat} (order : first ≤ second) :
    (cs.take second).utf8Encode =
      (cs.take first).utf8Encode ++ ((cs.take second).drop first).utf8Encode := by
  have parts := List.take_append_drop first (cs.take second)
  rw [List.take_take, Nat.min_eq_left order] at parts
  rw [← List.utf8Encode_append, parts]

/-- A later place has a later byte position. -/
theorem byte_offset_lt (text : Array Char) {first second : Nat} (order : first < second)
    (inside : second ≤ text.size) : byteOffset text first < byteOffset text second := by
  rw [byte_offset_eq text first (by omega), byte_offset_eq text second inside,
    utf8_encode_take text.toList (Nat.le_of_lt order), ByteArray.size_append]
  cases between : (text.toList.take second).drop first with
  | nil =>
      have count := congrArg List.length between
      simp only [List.length_drop, List.length_take, Array.length_toList, List.length_nil] at count
      omega
  | cons c cs =>
      rw [size_utf8_encode_cons]
      have positive := c.utf8Size_pos
      omega

theorem byte_offset_le_iff (text : Array Char) {first second : Nat} (left : first ≤ text.size)
    (right : second ≤ text.size) :
    byteOffset text first ≤ byteOffset text second ↔ first ≤ second := by
  constructor
  · intro bytes
    by_cases order : first ≤ second
    · exact order
    · have reversed := byte_offset_lt text (by omega : second < first) left
      omega
  · intro order
    rcases Nat.eq_or_lt_of_le order with same | before
    · subst same
      exact Nat.le_refl _
    · exact Nat.le_of_lt (byte_offset_lt text before right)

/-- The UTF-8 form of the characters of a range is what lies between its byte positions. -/
theorem utf8_encode_slice (text : Array Char) {start stop : Nat} (order : start ≤ stop)
    (inside : stop ≤ text.size) :
    (slice text start stop).utf8Encode =
      text.toList.utf8Encode.extract (byteOffset text start) (byteOffset text stop) := by
  have sliced : slice text start stop = (text.toList.take stop).drop start := by
    simp [slice, List.drop_take]
  have whole : text.toList.utf8Encode = (text.toList.take start).utf8Encode ++
      (slice text start stop).utf8Encode ++ (text.toList.drop stop).utf8Encode := by
    rw [sliced, ← utf8_encode_take text.toList order, ← List.utf8Encode_append,
      List.take_append_drop]
  have stopAt := byte_offset_eq text stop inside
  rw [utf8_encode_take text.toList order, ByteArray.size_append, ← sliced] at stopAt
  rw [whole, byte_offset_eq text start (by omega), stopAt, ByteArray.extract_append,
    ByteArray.extract_append_eq_right rfl rfl]
  simp

end Reckon.Text
