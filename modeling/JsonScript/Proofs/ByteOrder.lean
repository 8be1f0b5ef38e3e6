/-!
The order of texts is the order of their bytes.

Texts are ordered by their characters. In UTF-8 the first byte of a character grows with the number
of bytes that follow, and the bytes are the digits of the character in base 64, so texts are ordered
in the same way byte by byte.
-/

set_option autoImplicit false
set_option relaxedAutoImplicit false

namespace JsonScript.Text

def bytes (s : String) : List UInt8 :=
  s.toUTF8.data.toList

private theorem bytes_eq_flatMap (s : String) :
    bytes s = s.toList.flatMap String.utf8EncodeChar := by
  obtain ⟨characters, rfl⟩ : ∃ characters, s = String.ofList characters :=
    ⟨s.toList, String.ofList_toList.symm⟩
  simp [bytes, String.toUTF8, List.utf8Encode]

private theorem byte_lt {m n : Nat} (less : m < n) (sized : n < 256) :
    UInt8.ofNat m < UInt8.ofNat n := by
  rw [UInt8.lt_iff_toNat_lt, UInt8.toNat_ofNat', UInt8.toNat_ofNat',
    Nat.mod_eq_of_lt (Nat.lt_trans less sized), Nat.mod_eq_of_lt sized]
  exact less

/-- Below a limit, the bytes of a number come before those of every greater number, whatever
follows. -/
private def Increasing (limit : Nat) (encode : Nat → List UInt8) : Prop :=
  ∀ m n, m < n → n < limit → ∀ xs ys, encode m ++ xs < encode n ++ ys

private theorem increasing_byte (limit mark : Nat) (sized : limit + mark ≤ 256) :
    Increasing limit fun n => [UInt8.ofNat (n % limit + mark)] := by
  intro m n less bounded xs ys
  refine List.cons_lt_cons_iff.mpr (.inl (byte_lt ?_ ?_))
  · rw [Nat.mod_eq_of_lt bounded, Nat.mod_eq_of_lt (Nat.lt_trans less bounded)]
    exact Nat.add_lt_add_right less mark
  · rw [Nat.mod_eq_of_lt bounded]
    omega

private theorem Increasing.extend {limit : Nat} {encode : Nat → List UInt8}
    (increasing : Increasing limit encode) :
    Increasing (64 * limit) fun n => encode (n / 64) ++ [UInt8.ofNat (n % 64 + 128)] := by
  intro m n less bounded xs ys
  rw [List.append_assoc, List.append_assoc]
  by_cases lead : m / 64 < n / 64
  · exact increasing _ _ lead (by omega) _ _
  · have same : m / 64 = n / 64 := by omega
    rw [same]
    refine List.append_left_lt (List.cons_lt_cons_iff.mpr (.inl (byte_lt ?_ ?_))) <;> omega

private theorem Increasing.mono {limit wider : Nat} {encode : Nat → List UInt8}
    (increasing : Increasing wider encode) (narrow : limit ≤ wider) : Increasing limit encode :=
  fun m n less bounded => increasing m n less (Nat.lt_of_lt_of_le bounded narrow)

private theorem Increasing.glue {limit cut : Nat} {low high : Nat → List UInt8}
    (below : Increasing (cut + 1) low) (beyond : Increasing limit high)
    (apart : ∀ m n, m ≤ cut → cut < n → n < limit → ∀ xs ys, low m ++ xs < high n ++ ys) :
    Increasing limit fun n => if n ≤ cut then low n else high n := by
  intro m n less bounded xs ys
  by_cases first : m ≤ cut
  · by_cases second : n ≤ cut
    · simp only [if_pos first, if_pos second]
      exact below m n less (by omega) xs ys
    · simp only [if_pos first, if_neg second]
      exact apart m n first (by omega) bounded xs ys
  · have second : ¬n ≤ cut := by omega
    simp only [if_neg first, if_neg second]
    exact beyond m n less bounded xs ys

private theorem cons_append_lt {m n : Nat} (less : m < n) (sized : n < 256)
    {rest rest' : List UInt8} (xs ys : List UInt8) :
    UInt8.ofNat m :: rest ++ xs < UInt8.ofNat n :: rest' ++ ys :=
  List.cons_lt_cons_iff.mpr (.inl (byte_lt less sized))

private theorem encoded_lt {c d : Char} (less : c < d) (xs ys : List UInt8) :
    String.utf8EncodeChar c ++ xs < String.utf8EncodeChar d ++ ys := by
  have one : Increasing 128 fun n => [UInt8.ofNat n] := fun m n less bounded xs ys =>
    cons_append_lt less (by omega) xs ys
  have two : Increasing 2048 fun n =>
      [UInt8.ofNat (n / 64 % 32 + 192), UInt8.ofNat (n % 64 + 128)] :=
    (increasing_byte 32 192 (by decide)).extend
  have three : Increasing 65536 fun n =>
      [UInt8.ofNat (n / 4096 % 16 + 224), UInt8.ofNat (n / 64 % 64 + 128),
        UInt8.ofNat (n % 64 + 128)] := by
    simpa [Nat.div_div_eq_div_mul] using (increasing_byte 16 224 (by decide)).extend.extend
  have four : Increasing 0x110000 fun n =>
      [UInt8.ofNat (n / 262144 % 8 + 240), UInt8.ofNat (n / 4096 % 64 + 128),
        UInt8.ofNat (n / 64 % 64 + 128), UInt8.ofNat (n % 64 + 128)] := by
    have digits := (increasing_byte 8 240 (by decide)).extend.extend.extend
    refine Increasing.mono (by simpa [Nat.div_div_eq_div_mul] using digits) (by decide)
  have whole := one.glue (two.glue (three.glue four ?_) ?_) ?_
  · have bounded : d.val.toNat < 0x110000 := by
      rcases d.valid with low | high <;> omega
    exact whole c.val.toNat d.val.toNat less bounded xs ys
  · intro m n first second bounded xs ys
    exact cons_append_lt (by omega) (by omega) xs ys
  · intro m n first second bounded xs ys
    split
    · exact cons_append_lt (by omega) (by omega) xs ys
    · exact cons_append_lt (by omega) (by omega) xs ys
  · intro m n first second bounded xs ys
    split
    · exact cons_append_lt (by omega) (by omega) xs ys
    · split
      · exact cons_append_lt (by omega) (by omega) xs ys
      · exact cons_append_lt (by omega) (by omega) xs ys

private theorem flatMap_lt {cs ds : List Char} (less : cs < ds) :
    cs.flatMap String.utf8EncodeChar < ds.flatMap String.utf8EncodeChar := by
  induction cs generalizing ds with
  | nil =>
    cases ds with
    | nil => exact absurd less (List.lt_irrefl _)
    | cons d ds =>
      have some : String.utf8EncodeChar d ≠ [] := by
        intro none
        have length := String.length_utf8EncodeChar d
        rw [none, List.length_nil] at length
        exact absurd d.utf8Size_pos (by omega)
      obtain ⟨byte, rest, encoded⟩ := List.exists_cons_of_ne_nil some
      rw [List.flatMap_cons, encoded]
      exact List.nil_lt_cons _ _
  | cons c cs ih =>
    cases ds with
    | nil => exact absurd less (List.not_lt_nil _)
    | cons d ds =>
      rw [List.flatMap_cons, List.flatMap_cons]
      rcases List.cons_lt_cons_iff.mp less with smaller | ⟨rfl, later⟩
      · exact encoded_lt smaller _ _
      · exact List.append_left_lt (ih later)

theorem lt_iff_bytes_lt {s t : String} : s < t ↔ bytes s < bytes t := by
  have keeps {s t : String} (less : s < t) : bytes s < bytes t := by
    rw [bytes_eq_flatMap, bytes_eq_flatMap]
    exact flatMap_lt (String.lt_iff.mp less)
  refine ⟨keeps, fun less => Decidable.byContradiction fun notBefore => ?_⟩
  by_cases same : t = s
  · rw [same] at less
    exact List.lt_irrefl _ less
  · have after : t < s := Std.lt_of_le_of_ne (String.not_lt.mp notBefore) same
    exact List.lt_asymm less (keeps after)

end JsonScript.Text
