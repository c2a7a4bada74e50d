/-
  Series catalog — hashes of texts and of joined paths.

  The units of a text are the coefficients of a polynomial, and its hash is the value
  at 31 in 32 bits.  Each round reckons with signed numbers: a product cut to 32 bits,
  a sum that may pass them and is a number all the same, and the sum cut to 32 bits.

  * `Number.nearest_intCast`: whole numbers of at most 53 binary digits are not
    rounded;
  * `Text.hash_cons_ne`: a unit more at the front of a text changes its hash;
  * `Text.hashRound_modEq`, `Text.foldl_hashRound_modEq`: what a round and what a run
    of rounds do to a hash;
  * `Path.hash_polynomial`: hence the hash of a text, of two texts put together, and
    of two paths joined.
-/
import Mathlib.Algebra.BigOperators.Fin
import Mathlib.Algebra.Order.Field.Power
import Mathlib.Data.Int.ModEq
import Mathlib.Data.Rat.Floor
import Mathlib.Tactic.Ring
import SeriesCatalog.Number.Nearest
import SeriesCatalog.Proofs.Conversion

namespace SeriesCatalog

/-! ## Whole numbers -/

namespace Number

variable {n : Int}

theorem roundEven_intCast (n : Int) : roundEven n = n := by
  simp [roundEven, Rat.floor_intCast]

theorem leadingExponent_natCast {n : Nat} (some_digit : n ≠ 0) : leadingExponent n = n.log2 := by
  have low : (2 : Rat) ^ (n.log2 : Int) ≤ n := by
    rw [zpow_natCast]
    exact_mod_cast Nat.log2_self_le some_digit
  have digits : ((n : Rat).num.natAbs.log2 : Int) - ((n : Rat).den.log2 : Int) = n.log2 := by
    have one : Nat.log2 1 = 0 := rfl
    simp [one]
  rw [leadingExponent, digits, if_pos low]

theorem abs_intCast (n : Int) : (n : Rat).abs = (n.natAbs : Rat) := by
  rw [Rat.abs, Nat.cast_natAbs, Int.cast_abs]
  split
  · next nonneg => exact (abs_of_nonneg nonneg).symm
  · next neg => exact (abs_of_nonpos (le_of_not_ge neg)).symm

/-- The spacing about a whole number of at most 53 binary digits divides one. -/
theorem exists_spacing_intCast (some_digit : n ≠ 0) (few : n.natAbs < 2 ^ 53) :
    ∃ k : Nat, spacing n = ((2 : Rat) ^ k)⁻¹ := by
  have digits : n.natAbs.log2 < 53 := (Nat.log2_lt (Int.natAbs_ne_zero.2 some_digit)).2 few
  refine ⟨52 - n.natAbs.log2, ?_⟩
  rw [spacing, abs_intCast, leadingExponent_natCast (Int.natAbs_ne_zero.2 some_digit),
    ← zpow_natCast, ← zpow_neg]
  congr 1
  omega

/-- **Whole numbers of at most 53 binary digits are not rounded.** -/
theorem nearest_intCast (few : n.natAbs < 2 ^ 53) : nearest n = .ofInt n := by
  by_cases zero : n = 0
  · subst zero
    rfl
  · obtain ⟨k, hk⟩ := exists_spacing_intCast zero few
    have steps : (n : Rat) / spacing n = ((n * 2 ^ k : Int) : Rat) := by
      rw [hk, div_inv_eq_mul]
      push_cast
      rfl
    have rounded : (roundEven (n / spacing n) : Rat) * spacing n = n := by
      rw [steps, roundEven_intCast, ← steps]
      exact div_mul_cancel₀ _ (by rw [hk]; positivity)
    have bounded : ¬ (2 : Rat) ^ (1024 : Nat) ≤ (n : Rat).abs := by
      rw [abs_intCast, not_le]
      calc (n.natAbs : Rat) < 2 ^ (53 : Nat) := by exact_mod_cast few
        _ ≤ 2 ^ (1024 : Nat) := pow_le_pow_right₀ one_le_two (by decide)
    rw [nearest, if_neg (by exact_mod_cast zero)]
    simp only [rounded, if_neg bounded]
    rfl

/-- A number cut to a signed number of 32 bits.  A fraction is dropped, and nothing is left of what
    is not finite. -/
def cut : Number → Int32
  | .finite value => .ofInt (if 0 ≤ value then value.floor else value.ceil)
  | .nan | .infinite _ => 0

theorem cut_ofInt (n : Int) : (ofInt n).cut = .ofInt n := by
  simp [cut, ofInt, Rat.floor_intCast, Rat.ceil_intCast]

end Number

/-! ## The rounds of a hash -/

namespace Text

variable {u : UInt16} {text : Text} {a b : UInt32} {h h' : Int32}

/-- A step of the hash. -/
def mix (h : UInt32) (u : UInt16) : UInt32 := 31 * h + u.toUInt32

theorem hash_eq_foldl_mix : text.hash = (text.foldl mix 0).toInt32 := rfl

/-- The factor is odd, so that a step loses nothing. -/
theorem mix_injective (h : mix a u = mix b u) : a = b := by
  unfold mix at h
  grind

/-- **Two hashes that differ still differ behind the same units.** -/
theorem foldl_mix_injective (h : text.foldl mix a = text.foldl mix b) : a = b := by
  induction text generalizing a b with
  | nil => exact h
  | cons u text ih => exact mix_injective (ih h)

theorem hash_cons_ne (some_unit : u ≠ 0) : hash (u :: text) ≠ text.hash := by
  intro h
  have same := congrArg Int32.toUInt32 h
  rw [hash_eq_foldl_mix, hash_eq_foldl_mix, UInt32.toUInt32_toInt32, UInt32.toUInt32_toInt32,
    List.foldl_cons] at same
  have none : mix 0 u = 0 := foldl_mix_injective same
  rw [mix, UInt32.mul_zero, UInt32.zero_add] at none
  exact some_unit (UInt16.toUInt32_inj.1 none)

/-! ## Rounds with signed numbers -/

/-- What a round of the hash adds up: 31 times the hash so far, in 32 bits, and the unit. -/
def hashSum (h : Int32) (u : UInt16) : Int := (31 * h).toInt + u.toNat

/-- A round of the hash as it is reckoned with numbers: the sum is rounded, and cut to 32 bits. -/
def hashRound (h : Int32) (u : UInt16) : Int32 := (Number.nearest (hashSum h u)).cut

theorem natAbs_hashSum_lt (h : Int32) (u : UInt16) : (hashSum h u).natAbs < 2 ^ 53 := by
  have below := Int32.le_toInt (31 * h)
  have above := Int32.toInt_lt (31 * h)
  have unit := u.toNat_lt
  unfold hashSum
  omega

theorem nearest_hashSum (h : Int32) (u : UInt16) :
    Number.nearest (hashSum h u) = .ofInt (hashSum h u) :=
  Number.nearest_intCast (natAbs_hashSum_lt h u)

theorem hashRound_eq (h : Int32) (u : UInt16) : hashRound h u = .ofInt (hashSum h u) := by
  rw [hashRound, nearest_hashSum, Number.cut_ofInt]

theorem hashRound_toInt32 (h : UInt32) (u : UInt16) :
    hashRound h.toInt32 u = (mix h u).toInt32 := by
  have unit : u.toUInt32.toInt32 = .ofInt u.toNat := by
    rw [← UInt32.ofNat_uInt16ToNat, UInt32.toInt32_ofNat', Int32.ofInt_eq_ofNat]
  rw [hashRound_eq, hashSum, Int32.ofInt_add, Int32.ofInt_toInt, mix, UInt32.toInt32_add,
    UInt32.toInt32_mul, unit]
  rfl

theorem hash_eq_foldl_hashRound (text : Text) : text.hash = text.foldl hashRound 0 := by
  rw [hash_eq_foldl_mix]
  exact (List.foldl_hom UInt32.toInt32 hashRound_toInt32).symm

/-! ## The polynomial of a text -/

/-- The value at 31 of the polynomial that has the units of a text for its coefficients, the first
    unit for the leading one. -/
def polynomial (text : Text) : Int :=
  ∑ i : Fin text.length, (text[i].toNat : Int) * 31 ^ (text.length - 1 - i)

theorem polynomial_cons (u : UInt16) (text : Text) :
    polynomial (u :: text) = u.toNat * 31 ^ text.length + text.polynomial := by
  unfold polynomial
  refine (Fin.sum_univ_succ (n := text.length) _).trans ?_
  refine congrArg₂ (· + ·) rfl (Finset.sum_congr rfl fun i _ => ?_)
  have place : (u :: text).length - 1 - i.succ = text.length - 1 - i := by
    simp only [List.length_cons, Fin.val_succ]
    omega
  rw [place]
  rfl

theorem polynomial_append (x y : Text) :
    polynomial (x ++ y) = x.polynomial * 31 ^ y.length + y.polynomial := by
  induction x with
  | nil => simp [polynomial]
  | cons u x ih =>
    rw [List.cons_append, polynomial_cons, polynomial_cons, ih, List.length_append]
    ring

/-! ## The hash of a text -/

theorem toInt_ofInt_modEq (n : Int) : (Int32.ofInt n).toInt ≡ n [ZMOD 2 ^ 32] := by
  rw [Int32.toInt_ofInt]
  exact Int.bmod_emod

/-- **A round of the hash** multiplies it by 31 and adds the unit, apart from multiples of 2 ^ 32. -/
theorem hashRound_modEq (h : Int32) (u : UInt16) :
    (hashRound h u).toInt ≡ h.toInt * 31 + u.toNat [ZMOD 2 ^ 32] := by
  have product : (31 * h).toInt ≡ h.toInt * 31 [ZMOD 2 ^ 32] := by
    rw [Int32.toInt_mul, mul_comm]
    exact Int.bmod_emod
  calc (hashRound h u).toInt
      = (Int32.ofInt (hashSum h u)).toInt := by rw [hashRound_eq]
    _ ≡ (31 * h).toInt + u.toNat [ZMOD 2 ^ 32] := toInt_ofInt_modEq _
    _ ≡ h.toInt * 31 + u.toNat [ZMOD 2 ^ 32] := product.add_right _

/-- **A run of rounds** goes on with the polynomial of the text. -/
theorem foldl_hashRound_modEq (text : Text) (h : Int32) :
    (text.foldl hashRound h).toInt ≡ h.toInt * 31 ^ text.length + polynomial text
      [ZMOD 2 ^ 32] := by
  induction text generalizing h with
  | nil => simp [polynomial]
  | cons u text ih =>
    rw [List.foldl_cons, List.length_cons, polynomial_cons]
    calc (text.foldl hashRound (hashRound h u)).toInt
        ≡ (hashRound h u).toInt * 31 ^ text.length + polynomial text [ZMOD 2 ^ 32] := ih _
      _ ≡ (h.toInt * 31 + u.toNat) * 31 ^ text.length + polynomial text [ZMOD 2 ^ 32] :=
        ((hashRound_modEq h u).mul_right _).add_right _
      _ = h.toInt * 31 ^ (text.length + 1) + (u.toNat * 31 ^ text.length + polynomial text) := by
        ring

theorem hash_modEq (text : Text) : text.hash.toInt ≡ text.polynomial [ZMOD 2 ^ 32] := by
  have run := foldl_hashRound_modEq text 0
  rw [← hash_eq_foldl_hashRound] at run
  simpa using run

theorem eq_of_toInt_modEq (same : h.toInt ≡ h'.toInt [ZMOD 2 ^ 32]) : h = h' := by
  have := Int32.le_toInt h
  have := Int32.toInt_lt h
  have := Int32.le_toInt h'
  have := Int32.toInt_lt h'
  refine Int32.toInt_inj.1 ?_
  unfold Int.ModEq at same
  omega

theorem hash_append (x y : Text) :
    (hash (x ++ y)).toInt ≡ x.hash.toInt * 31 ^ y.length + y.hash.toInt [ZMOD 2 ^ 32] := by
  calc (hash (x ++ y)).toInt ≡ polynomial (x ++ y) [ZMOD 2 ^ 32] := hash_modEq (x ++ y)
    _ = x.polynomial * 31 ^ y.length + y.polynomial := polynomial_append x y
    _ ≡ x.hash.toInt * 31 ^ y.length + y.hash.toInt [ZMOD 2 ^ 32] :=
      ((hash_modEq x).symm.mul_right _).add (hash_modEq y).symm

end Text

/-! ## The hash of joined paths -/

namespace Path

variable {p q : Path}

theorem hash_join_append (hp : p.nodes ≠ []) (hq : q.nodes ≠ []) :
    (p ++ q).hash.toInt ≡
      (p.hash.toInt * 31 + 46) * 31 ^ q.nodes.join.length + q.hash.toInt [ZMOD 2 ^ 32] := by
  have joined : (p ++ q).nodes.join = (p.nodes.join ++ [separator]) ++ q.nodes.join := by
    rw [List.append_assoc]
    exact Nodes.join_append hp hq
  have mark : (Text.hash (p.nodes.join ++ [separator])).toInt ≡ p.hash.toInt * 31 + 46
      [ZMOD 2 ^ 32] :=
    Text.hash_append p.nodes.join [separator]
  rw [hash, joined]
  exact (Text.hash_append _ _).trans ((mark.mul_right _).add_right _)

/-- **The hash is a polynomial, and joined paths are hashed from their hashes.**  The hash of a text
    is the one signed number of 32 bits that agrees with the polynomial modulo 2 ^ 32.  The rounds
    that reckon with numbers lead to it, and none of their sums is rounded.  So the hash of two texts
    put together is made from theirs, and that of two paths joined from those of the paths, of the
    separator and of the length of the second; the texts that the paths were read from do not
    matter.  Which of two joins is done first does not matter either. -/
theorem hash_polynomial :
    (∀ (text : Text) (h : Int32), h = text.hash ↔ h.toInt ≡ text.polynomial [ZMOD 2 ^ 32]) ∧
    (∀ text : Text, text.foldl Text.hashRound 0 = text.hash) ∧
    (∀ (h : Int32) (u : UInt16), Number.nearest (Text.hashSum h u) = .ofInt (Text.hashSum h u)) ∧
    (∀ x y : Text, (Text.hash (x ++ y)).toInt ≡
      x.hash.toInt * 31 ^ y.length + y.hash.toInt [ZMOD 2 ^ 32]) ∧
    (∀ p q : Path, p.Reachable → q.Reachable → (p ++ q).hash.toInt ≡
      (p.hash.toInt * 31 + 46) * 31 ^ q.nodes.join.length + q.hash.toInt [ZMOD 2 ^ 32]) ∧
    ∀ p q r : Path, (p ++ q ++ r).nodes = (p ++ (q ++ r)).nodes ∧
      (p ++ q ++ r).fullPath = (p ++ (q ++ r)).fullPath ∧
      (p ++ q ++ r).hash = (p ++ (q ++ r)).hash := by
  refine ⟨fun text h => ⟨?_, fun same => ?_⟩, fun text => ?_, Text.nearest_hashSum,
    Text.hash_append, fun p q hp hq => ?_, fun p q r => ?_⟩
  · rintro rfl
    exact Text.hash_modEq text
  · exact Text.eq_of_toInt_modEq (same.trans (Text.hash_modEq text).symm)
  · exact (Text.hash_eq_foldl_hashRound text).symm
  · exact hash_join_append hp.proper.nonempty hq.proper.nonempty
  · have same : p ++ q ++ r = p ++ (q ++ r) :=
      congrArg (fun nodes => ({ nodes } : Path)) (List.append_assoc p.nodes q.nodes r.nodes)
    rw [same]
    exact ⟨rfl, rfl, rfl⟩

/-- The mark between the nodes in the text of the first path does not matter. -/
theorem hash_of_barred : barred.Reachable ∧ barred.fullPath ≠ barred.nodes.join ∧
    assembled.Reachable ∧ (barred ++ assembled).hash.toInt ≡
      (barred.hash.toInt * 31 + 46) * 31 ^ 7 + assembled.hash.toInt [ZMOD 2 ^ 32] := by
  obtain ⟨-, -, -, -, joins, -⟩ := hash_polynomial
  exact ⟨barred_reachable, by decide, assembled_reachable,
    joins barred assembled barred_reachable assembled_reachable⟩

end Path

end SeriesCatalog
