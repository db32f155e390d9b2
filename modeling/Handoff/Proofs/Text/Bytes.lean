import Mathlib.Data.String.Basic
import Mathlib.Tactic.SplitIfs

/-! # Texts as bytes

Texts are compared by code points. UTF-8 is made so that comparing bytes comes to the same: of two characters the
greater one has the greater first byte, or equally many bytes and the greater digits in them.

* `Text.bytes`: the UTF-8 bytes of a text.
* `Text.utf8EncodeChar_lt`: of two characters, the greater one has the greater bytes, whatever follows.
* `Text.bytes_lt_iff`: the order of texts is that of their bytes.
* `Text.fromUTF8?_bytes`, `Text.lineEnd_mem_bytes_iff`: texts are read back, and keep their line ends.
-/

namespace Handoff.Text

/-- The UTF-8 bytes of a text. -/
def bytes (s : String) : List UInt8 := s.toUTF8.data.toList

theorem bytes_eq (s : String) : bytes s = s.toList.flatMap String.utf8EncodeChar := by
  conv_lhs =>
    rw [bytes, ← String.ofList_toList (s := s), String.toUTF8_eq_toByteArray, String.toByteArray_ofList]
  exact List.toList_data_toByteArray ..

/-- Lists of bytes are compared by their first bytes, and behind equal ones by what follows. -/
theorem ofNat_cons_lt {m n : Nat} {l l' : List UInt8} (hn : n < 256) (hle : m ≤ n) (h : m = n → l < l') :
    UInt8.ofNat m :: l < UInt8.ofNat n :: l' := by
  rw [List.cons_lt_cons_iff]
  rcases Nat.lt_or_eq_of_le hle with hlt | rfl
  · left
    rw [UInt8.lt_iff_toNat_lt, UInt8.toNat_ofNat_of_lt' (Nat.lt_trans hlt hn), UInt8.toNat_ofNat_of_lt' hn]
    exact hlt
  · exact .inr ⟨rfl, h rfl⟩

/-- **The greater character has the greater bytes**, whatever follows it. -/
theorem utf8EncodeChar_lt {c d : Char} (h : c < d) (r s : List UInt8) :
    String.utf8EncodeChar c ++ r < String.utf8EncodeChar d ++ s := by
  have hlt : c.val.toNat < d.val.toNat := h
  have hmax : d.val.toNat < 0x110000 := by
    have hvalid := d.valid
    unfold UInt32.isValidChar Nat.isValidChar at hvalid
    omega
  unfold String.utf8EncodeChar
  generalize c.val.toNat = v at hlt ⊢
  generalize d.val.toNat = w at hlt hmax ⊢
  simp only
  split_ifs
  -- `d` has at least as many bytes as `c`
  all_goals try omega
  all_goals simp only [List.cons_append, List.nil_append]
  -- equal first bytes mean equally many bytes; as long as bytes are equal the numbers have equal leading digits,
  -- which they cannot have to the end
  all_goals refine ofNat_cons_lt (by omega) (by omega) fun h₁ => ?_
  all_goals try omega
  all_goals refine ofNat_cons_lt (by omega) (by omega) fun h₂ => ?_
  all_goals try omega
  all_goals refine ofNat_cons_lt (by omega) (by omega) fun h₃ => ?_
  all_goals try omega
  all_goals exact ofNat_cons_lt (by omega) (by omega) fun h₄ => by omega

theorem flatMap_utf8EncodeChar_lt {l l' : List Char} (h : l < l') :
    l.flatMap String.utf8EncodeChar < l'.flatMap String.utf8EncodeChar := by
  induction l generalizing l' with
  | nil =>
    cases l' with
    | nil => cases h
    | cons d l' =>
      rw [List.flatMap_nil, List.flatMap_cons]
      cases hd : String.utf8EncodeChar d with
      | nil => exact absurd hd String.utf8EncodeChar_ne_nil
      | cons b r => exact List.nil_lt_cons ..
  | cons c l ih =>
    cases l' with
    | nil => cases h
    | cons d l' =>
      rw [List.flatMap_cons, List.flatMap_cons]
      rcases List.cons_lt_cons_iff.1 h with hlt | ⟨rfl, hrest⟩
      · exact utf8EncodeChar_lt hlt _ _
      · exact List.append_left_lt (ih hrest)

/-- **The order of texts is that of their bytes.** -/
theorem bytes_lt_iff {s t : String} : bytes s < bytes t ↔ s < t := by
  have hmono : ∀ {s t : String}, s < t → bytes s < bytes t := by
    intro s t h
    rw [bytes_eq, bytes_eq]
    exact flatMap_utf8EncodeChar_lt (String.lt_iff.1 h)
  refine ⟨fun h => ?_, hmono⟩
  rcases lt_trichotomy s t with hlt | rfl | hgt
  · exact hlt
  · exact absurd h (List.lt_irrefl _)
  · exact absurd h (List.lt_asymm (hmono hgt))

/-! ### Reading bytes -/

theorem bytes_append (s t : String) : bytes (s ++ t) = bytes s ++ bytes t := by
  rw [bytes_eq, bytes_eq, bytes_eq, String.toList_append, List.flatMap_append]

theorem bytes_eq_nil_iff {s : String} : bytes s = [] ↔ s = "" := by
  rw [bytes_eq, List.flatMap_eq_nil_iff, ← String.toList_eq_nil_iff]
  refine ⟨fun h => List.eq_nil_iff_forall_not_mem.2 fun c hc => String.utf8EncodeChar_ne_nil (h c hc), fun h => ?_⟩
  simp [h]

/-- **The bytes of a text are read back as the text.** -/
theorem fromUTF8?_bytes (s : String) : String.fromUTF8? ⟨(bytes s).toArray⟩ = some s := by
  have hvalid : s.toUTF8.IsValidUTF8 := s.isValidUTF8
  exact dif_pos hvalid

/-- **The byte of a line end** stands in no other character. -/
theorem lineEnd_mem_utf8EncodeChar_iff {c : Char} : (10 : UInt8) ∈ String.utf8EncodeChar c ↔ c = '\n' := by
  refine ⟨fun h => ?_, fun h => h ▸ List.mem_singleton_self _⟩
  have hmax : c.val.toNat < 0x110000 := by
    have hvalid := c.valid
    unfold UInt32.isValidChar Nat.isValidChar at hvalid
    omega
  have hten : ∀ {n : Nat}, n < 256 → 10 = UInt8.ofNat n → n = 10 := by
    intro n hn heq
    have hnat := congrArg UInt8.toNat heq
    rw [UInt8.toNat_ofNat_of_lt' hn] at hnat
    exact hnat.symm
  have hval : c.val.toNat = 10 := by
    unfold String.utf8EncodeChar at h
    simp only at h
    split_ifs at h <;> simp only [List.mem_cons, List.not_mem_nil, or_false] at h
    · exact hten (by omega) h
    -- all bytes of a longer character are at least 128
    · rcases h with h | h <;> have := hten (by omega) h <;> omega
    · rcases h with h | h | h <;> have := hten (by omega) h <;> omega
    · rcases h with h | h | h | h <;> have := hten (by omega) h <;> omega
  exact Char.ext (UInt32.toNat_inj.1 hval)

theorem lineEnd_mem_bytes_iff {s : String} : (10 : UInt8) ∈ bytes s ↔ '\n' ∈ s.toList := by
  simp only [bytes_eq, List.mem_flatMap, lineEnd_mem_utf8EncodeChar_iff, exists_eq_right]

end Handoff.Text
