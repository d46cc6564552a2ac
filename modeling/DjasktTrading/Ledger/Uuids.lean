import DjasktTrading.Ledger.Models
import DjasktTrading.Reasoning.Hex

/-!
# UUIDs — their canonical text, read back

A portfolio id in a URL is any text of 36 hexadecimal digits and dashes; the database reads it with
`uuid.UUID`, which drops the dashes.  A group of the channel layer is named by the text itself.
-/

open Reasoning

namespace DjasktTrading.Uuid

/-- The digits of the canonical text, 32 of them. -/
def hexDigits (u : Uuid) : List Char :=
  let digits := Nat.toDigits 16 u.toNat
  List.replicate (32 - digits.length) '0' ++ digits

/-- `uuid.UUID(hex)`, for a text of hexadecimal digits and dashes. -/
def ofHex? (hex : String) : Option Uuid :=
  let digits := hex.toList.filter (· ≠ '-')
  if digits.length = 32 then (Reasoning.ofHex? digits).map (BitVec.ofNat 128) else none

theorem length_hexDigits (u : Uuid) : u.hexDigits.length = 32 := by
  have hlt : u.toNat < 16 ^ 32 := u.isLt
  have hle : (Nat.toDigits 16 u.toNat).length ≤ 32 :=
    (Nat.length_toDigits_le_iff (by decide) (by decide)).mpr hlt
  simp only [hexDigits, List.length_append, List.length_replicate]
  omega

theorem dash_notMem_hexDigits (u : Uuid) : '-' ∉ u.hexDigits := by
  rw [hexDigits, List.mem_append, not_or]
  refine ⟨fun hmem => ?_, dash_notMem_toDigits _⟩
  exact absurd (List.eq_of_mem_replicate hmem) (by decide)

theorem toList_str (u : Uuid) :
    u.str.toList = u.hexDigits.take 8 ++ '-' :: ((u.hexDigits.drop 8).take 4 ++
      '-' :: ((u.hexDigits.drop 12).take 4 ++ '-' :: ((u.hexDigits.drop 16).take 4 ++
        '-' :: u.hexDigits.drop 20))) := by
  unfold Uuid.str
  simp only [String.toList_append, String.toList_ofList, List.append_assoc]
  rfl

/-- Without its dashes, the text is its digits. -/
theorem filter_toList_str (u : Uuid) : u.str.toList.filter (· ≠ '-') = u.hexDigits := by
  have hkeep : ∀ cs : List Char, cs <+: u.hexDigits ∨ cs <:+: u.hexDigits →
      cs.filter (· ≠ '-') = cs := by
    intro cs hcs
    rw [List.filter_eq_self]
    intro c hc
    have hmem : c ∈ u.hexDigits := by
      rcases hcs with hcs | hcs
      · exact hcs.subset hc
      · exact hcs.subset hc
    simpa using fun heq : c = '-' => dash_notMem_hexDigits u (heq ▸ hmem)
  have hblock : ∀ n m, ((u.hexDigits.drop n).take m).filter (· ≠ '-') =
      (u.hexDigits.drop n).take m := fun n m =>
    hkeep _ (.inr ((List.take_prefix m _).isInfix.trans (List.drop_suffix n _).isInfix))
  have hlast : (u.hexDigits.drop 20).filter (· ≠ '-') = u.hexDigits.drop 20 :=
    hkeep _ (.inr (List.drop_suffix 20 _).isInfix)
  rw [toList_str]
  simp only [List.filter_append, List.filter_cons, ne_eq, not_true_eq_false, decide_false,
    Bool.false_eq_true, if_false]
  have hfirst := hkeep _ (.inl (List.take_prefix 8 u.hexDigits))
  simp only [ne_eq] at hfirst hblock hlast
  rw [hfirst, hblock, hblock, hblock, hlast]
  -- the five blocks are the digits again
  have hjoin : ∀ n m, (u.hexDigits.drop n).take m ++ u.hexDigits.drop (n + m) =
      u.hexDigits.drop n := by
    intro n m
    rw [← List.drop_drop, List.take_append_drop]
  rw [hjoin 16 4, hjoin 12 4, hjoin 8 4, List.take_append_drop]

/-- Reading the canonical text gives the UUID. -/
theorem ofHex?_str (u : Uuid) : ofHex? u.str = some u := by
  have hread : Reasoning.ofHex? u.hexDigits = some u.toNat := ofHex?_replicate_append _ _
  simp only [ofHex?, filter_toList_str, length_hexDigits, if_true, hread, Option.map_some,
    BitVec.ofNat_toNat, BitVec.setWidth_eq]

theorem str_injective {u v : Uuid} (h : u.str = v.str) : u = v := by
  have hread := ofHex?_str u
  rw [h, ofHex?_str v] at hread
  exact (Option.some.inj hread).symm

/-! ## Texts that are canonical -/

/-- Where the canonical text has its dashes. -/
def dashes : List Bool := (List.range 36).map (· ∈ [8, 13, 18, 23])

/-- Lower case, with the dashes where the canonical text has them. -/
def Canonical (text : String) : Prop :=
  text.toList.map (· == '-') = dashes ∧ ∀ c ∈ text.toList, ¬ c.isUpper

theorem hexDigits_not_isUpper (u : Uuid) : ∀ c ∈ u.hexDigits, ¬ c.isUpper := by
  have hdigit : ∀ d < 16, ¬ (Nat.digitChar d).isUpper := by decide
  intro c hc
  rcases List.mem_append.mp hc with hzero | hdigits
  · rw [List.eq_of_mem_replicate hzero]
    decide
  · obtain ⟨d, hd, rfl⟩ := mem_toDigits hdigits
    exact hdigit d hd

theorem canonical_str (u : Uuid) : Canonical u.str := by
  have hblock : ∀ cs : List Char, cs ⊆ u.hexDigits →
      cs.map (· == '-') = List.replicate cs.length false := by
    intro cs hcs
    rw [List.eq_replicate_iff, List.length_map]
    refine ⟨rfl, fun b hb => ?_⟩
    obtain ⟨c, hc, rfl⟩ := List.mem_map.mp hb
    simpa using fun heq : c = '-' => dash_notMem_hexDigits u (heq ▸ hcs hc)
  have hinner : ∀ n m, (u.hexDigits.drop n).take m ⊆ u.hexDigits := fun n m =>
    fun c hc => List.drop_subset n _ (List.take_subset m _ hc)
  constructor
  · rw [toList_str]
    simp only [List.map_append, List.map_cons, hblock _ (List.take_subset 8 _), hblock _ (hinner _ _),
      hblock _ (List.drop_subset 20 _), List.length_take, List.length_drop, length_hexDigits]
    decide
  · intro c hc
    rw [toList_str] at hc
    simp only [List.mem_append, List.mem_cons] at hc
    have hdash : ¬ '-'.isUpper := by decide
    rcases hc with hc | rfl | hc | rfl | hc | rfl | hc | rfl | hc
    · exact hexDigits_not_isUpper u c (List.take_subset 8 _ hc)
    · exact hdash
    · exact hexDigits_not_isUpper u c (hinner 8 4 hc)
    · exact hdash
    · exact hexDigits_not_isUpper u c (hinner 12 4 hc)
    · exact hdash
    · exact hexDigits_not_isUpper u c (hinner 16 4 hc)
    · exact hdash
    · exact hexDigits_not_isUpper u c (List.drop_subset 20 _ hc)

/-- Texts with the same dashes and the same digits between them are the same. -/
theorem eq_of_dashes {cs ds : List Char} (hdashes : cs.map (· == '-') = ds.map (· == '-'))
    (hdigits : cs.filter (· ≠ '-') = ds.filter (· ≠ '-')) : cs = ds := by
  induction cs generalizing ds with
  | nil => exact (List.map_eq_nil_iff.mp hdashes.symm).symm
  | cons c cs ih =>
      cases ds with
      | nil => cases hdashes
      | cons d ds =>
          obtain ⟨hhead, htail⟩ := List.cons.inj hdashes
          have hhead : (c == '-') = (d == '-') := hhead
          have hiff : c = '-' ↔ d = '-' := by
            rw [← @beq_iff_eq _ _ _ c, hhead, beq_iff_eq]
          by_cases hc : c = '-'
          · have hd := hiff.mp hc
            rw [List.filter_cons_of_neg (by simpa using hc),
              List.filter_cons_of_neg (by simpa using hd)] at hdigits
            rw [hc, hd, ih htail hdigits]
          · have hd := mt hiff.mpr hc
            rw [List.filter_cons_of_pos (by simpa using hc),
              List.filter_cons_of_pos (by simpa using hd)] at hdigits
            obtain ⟨rfl, hrest⟩ := List.cons.inj hdigits
            rw [ih htail hrest]

/-- Of all texts that are read as a UUID, its canonical text is the one that is canonical. -/
theorem eq_str_iff_canonical {text : String} {u : Uuid} (h : ofHex? text = some u) :
    text = u.str ↔ Canonical text := by
  constructor
  · rintro rfl
    exact canonical_str u
  · rintro ⟨hdashes, hlower⟩
    unfold ofHex? at h
    dsimp only at h
    split at h
    · rename_i hlen
      obtain ⟨n, hn, rfl⟩ := Option.map_eq_some_iff.mp h
      have hlt : n < 2 ^ 128 := by
        have hbound := ofHex?_lt hn
        rw [hlen] at hbound
        exact hbound
      have hread : Reasoning.ofHex? (hexDigits (BitVec.ofNat 128 n)) = some n := by
        rw [hexDigits, ofHex?_replicate_append, BitVec.toNat_ofNat, Nat.mod_eq_of_lt hlt]
      apply String.toList_inj.mp
      refine eq_of_dashes (hdashes.trans (canonical_str _).1.symm) ?_
      rw [filter_toList_str]
      refine ofHex?_inj (hlen.trans (length_hexDigits _).symm) ?_ (hexDigits_not_isUpper _) hn hread
      exact fun c hc => hlower c (List.mem_of_mem_filter hc)
    · cases h

end DjasktTrading.Uuid
