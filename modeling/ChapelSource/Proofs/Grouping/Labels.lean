import Mathlib.Tactic.ByContra
import ChapelSource.Proofs.Grouping.Value
import ChapelSource.Proofs.Word

/-!
# Trees that change their value

If a right factor of a tree is a division, then numbers can be given to the names of the tree such
that its printed text has another value.

* `count`: the numbers that names stand for.
* `OpTree.label`: a tree whose leftmost name stands for a number that all operators pass on.
* `OpTree.Passes`: a tree whose value is not changed by regrouping, even as a right factor.
* `OpTree.Differs`: a tree that can be given names such that regrouping changes its value.
* `OpTree.differs_product`, `OpTree.differs_left`, `OpTree.differs_right`: such trees.
* **`OpTree.keepsFactors_iff`**: the trees whose printed texts have their values.
* **`OpTree.product_of_quotient_ne`**: a tree whose printed text has another value.
-/

namespace ChapelSource

/-! ## Names that stand for numbers -/

/-- The number that a name stands for. -/
def count (w : Word) : Int := (w.chars.length - 1 : Nat)

theorem count_counter (n : Nat) : count (counter n) = n := by
  rw [count, counter, List.length_replicate, Nat.add_sub_cancel]

namespace BinaryOp

/-- The right operand that leaves any left operand up to a bound as it is. -/
def neutral (bound : Nat) : BinaryOp → Nat
  | .times | .divide => 1
  | .modulo => bound + 1
  | _ => 0

theorem neutral_le (bound : Nat) (o : BinaryOp) : o.neutral bound ≤ bound + 1 := by
  cases o <;> simp only [neutral] <;> omega

theorem result?_divide (x : Int) {y : Int} (hy : y ≠ 0) :
    divide.result? x y = some (x.tdiv y) := if_neg hy

theorem result?_modulo (x : Int) {y : Int} (hy : y ≠ 0) :
    modulo.result? x y = some (x.tmod y) := if_neg hy

theorem result?_modulo_of_lt {x y : Nat} (h : x < y) : modulo.result? x y = some (x : Int) := by
  rw [result?_modulo _ (by omega), Int.tmod_eq_of_lt (by omega) (by omega)]

theorem result?_neutral {o : BinaryOp} (ho : o.isArithmetic = true) {x bound : Nat}
    (h : x ≤ bound) : o.result? x (o.neutral bound) = some (x : Int) := by
  cases o with
  | plus => exact congrArg some (Int.add_zero _)
  | minus => exact congrArg some (Int.sub_zero _)
  | times => exact congrArg some (Int.mul_one _)
  | divide =>
    have hone : ((1 : Nat) : Int) ≠ 0 := by decide
    exact (result?_divide _ hone).trans (congrArg some (Int.tdiv_one _))
  | modulo => exact result?_modulo_of_lt (Nat.lt_succ_of_le h)
  | _ => exact nomatch ho

/-- **A left operand tells two large numbers apart**, with large results. That of a product is one. -/
theorem exists_apart {o : BinaryOp} (ho : o.isArithmetic = true) {bound x y : Nat}
    (hx : bound < x) (hy : bound < y) (hne : x ≠ y) :
    ∃ q : Nat, (o = .times → q = 1) ∧ ∃ x' y' : Nat, o.result? q x = some (x' : Int) ∧
      o.result? q y = some (y' : Int) ∧ bound ≤ x' ∧ bound ≤ y' ∧ x' ≠ y' := by
  cases o with
  | plus =>
    refine ⟨0, nofun, x, y, congrArg some (Int.zero_add _), congrArg some (Int.zero_add _), ?_⟩
    omega
  | minus =>
    refine ⟨x + y, nofun, y, x, congrArg some ?_, congrArg some ?_, by omega, by omega, hne.symm⟩
    · omega
    · omega
  | times =>
    refine ⟨1, fun _ => rfl, x, y, congrArg some (Int.one_mul _), congrArg some (Int.one_mul _), ?_⟩
    omega
  | divide =>
    refine ⟨x * y, nofun, y, x, ?_, ?_, by omega, by omega, hne.symm⟩
    · rw [result?_divide _ (by omega), Int.natCast_mul, Int.mul_tdiv_cancel_left _ (by omega)]
    · rw [result?_divide _ (by omega), Int.natCast_mul, Int.mul_tdiv_cancel _ (by omega)]
  | modulo =>
    -- One less than a common multiple is one less than a multiple of each.
    have hmod : ∀ {a b : Nat}, 0 < a → 0 < b →
        modulo.result? (a * b - 1 : Nat) a = some ((a - 1 : Nat) : Int) := fun {a b} ha hb => by
      have hsplit : a * b - 1 = a - 1 + a * (b - 1) := by
        obtain ⟨b, rfl⟩ := Nat.exists_eq_add_of_lt hb
        rw [Nat.zero_add, Nat.add_sub_cancel, Nat.mul_add, Nat.mul_one]
        omega
      rw [result?_modulo _ (by omega), hsplit, ← Int.ofNat_tmod, Nat.add_mul_mod_self_left,
        Nat.mod_eq_of_lt (by omega)]
    refine ⟨x * y - 1, nofun, x - 1, y - 1, hmod (by omega) (by omega), ?_, by omega, by omega,
      by omega⟩
    rw [Nat.mul_comm]
    exact hmod (by omega) (by omega)
  | _ => exact nomatch ho

end BinaryOp

namespace OpTree

/-! ## Labelled trees -/

/-- The leftmost name of a tree stands for a number and all right operands are neutral to it. -/
def label (bound value : Nat) : OpTree → OpTree
  | binary o l r => binary o (label bound value l) (label (bound + 1) (o.neutral bound) r)
  | name _ => name (counter value)
  | t => t

theorem shape_label (t : OpTree) : ∀ bound value, (label bound value t).shape = t.shape := by
  induction t with
  | binary o l r ihl ihr =>
    intro bound value
    rw [label, shape, shape, ihl, ihr]
  | name w => exact fun _ _ => rfl
  | leading o e => exact fun _ _ => rfl
  | trailing e o => exact fun _ _ => rfl

theorem value?_attach_one {env : Word → Int} {l : OpTree} (hl : l.value? env = some 1) :
    ∀ r, (attach .times l r).value? env = r.value? env
  | binary p b c => by
    by_cases h : BinaryOp.times.regroups ∧ BinaryOp.times.rank = p.rank
    · rw [attach, if_pos h, value?_binary, value?_attach_one hl b, value?_binary]
    · rw [attach, if_neg h, value?_binary, hl]
      cases h : (binary p b c).value? env with
      | none => rfl
      | some x => exact congrArg some (Int.one_mul x)
  | name w => by
    show (binary .times l (name w)).value? env = _
    rw [value?_binary, hl]
    exact congrArg some (Int.one_mul (env w))
  | leading o e => by
    show (binary .times l (leading o e)).value? env = _
    rw [value?_binary, hl]
    rfl
  | trailing e o => by
    show (binary .times l (trailing e o)).value? env = _
    rw [value?_binary, hl]
    rfl

/-- A tree has a value, and its normal form has the same, also as a right factor as long as the
product is at most `bound`. -/
structure Passes (bound value : Nat) (t : OpTree) : Prop where
  value_eq : t.value? count = some (value : Int)
  attach_eq : ∀ {l : OpTree} {x : Nat}, l.value? count = some (x : Int) → x * value ≤ bound →
    (attach .times l t.normal).value? count = some ((x * value : Nat) : Int)

theorem Passes.normal_eq {bound value : Nat} {t : OpTree} (h : t.Passes bound value)
    (hle : value ≤ bound) : t.normal.value? count = some (value : Int) := by
  have hone : (name (counter 1)).value? count = some ((1 : Nat) : Int) :=
    congrArg some (count_counter 1)
  have hattach := h.attach_eq hone (by omega)
  rwa [value?_attach_one hone, Nat.one_mul] at hattach

/-- What attaching a right operand that passes on its value comes to. -/
theorem Passes.attach_apply {bound value : Nat} {r : OpTree} (h : r.Passes bound value)
    (hle : value ≤ bound) {o : BinaryOp} (ho : o.isArithmetic = true) {l : OpTree} {x : Nat}
    (hl : l.value? count = some (x : Int)) (hx : o = .times → x * value ≤ bound) :
    (attach o l r.normal).value? count = o.result? x value := by
  have hbinary := value?_binary_of_eq (o := o) hl (h.normal_eq hle)
  cases o with
  | plus => exact (value?_attach_plus _ _).trans hbinary
  | times => exact h.attach_eq hl (hx rfl)
  | minus => rwa [attach_of_not_regroups rfl]
  | divide => rwa [attach_of_not_regroups rfl]
  | modulo => rwa [attach_of_not_regroups rfl]
  | _ => exact nomatch ho

/-- **A labelled tree passes on the value of its leftmost name.** -/
theorem passes_label {t : OpTree} (ht : t.IsArithmetic) : ∀ {bound value : Nat}, value ≤ bound →
    (label bound value t).Passes bound value := by
  induction t with
  | leading o e => exact ht.elim
  | trailing e o => exact ht.elim
  | name w =>
    intro bound value _
    have hname : (name (counter value)).value? count = some (value : Int) :=
      congrArg some (count_counter value)
    exact ⟨hname, fun hl _ => value?_binary_of_eq hl hname⟩
  | binary o l r ihl ihr =>
    intro bound value hle
    obtain ⟨ho, hal, har⟩ := ht
    have hl := ihl hal hle
    have hr := ihr har (o.neutral_le bound)
    have hright : ∀ {a : OpTree} {x : Nat}, a.value? count = some (x : Int) → x ≤ bound →
        (attach o a (label (bound + 1) (o.neutral bound) r).normal).value? count =
          some (x : Int) := fun {a x} ha hx => by
      rw [hr.attach_apply (o.neutral_le bound) ho ha, BinaryOp.result?_neutral ho hx]
      rintro rfl
      show x * 1 ≤ bound + 1
      omega
    refine ⟨?_, fun {a x} ha hx => ?_⟩
    · rw [label, value?_binary_of_eq hl.value_eq hr.value_eq, BinaryOp.result?_neutral ho hle]
    · rw [label, normal]
      by_cases hrank : BinaryOp.times.rank = o.rank
      · rw [attach_attach rfl hrank]
        exact hright (hl.attach_eq ha hx) hx
      · rw [attach_of_not, value?_binary_of_eq ha (hright (hl.normal_eq hle) hle)]
        · rfl
        · rw [binaryRank?_attach]
          exact fun h => hrank (Option.some.inj h.2).symm

/-! ## Trees that regrouping gives another value -/

/-- The names of a tree can stand for numbers such that it has a value and regrouping changes it, both
values being large. -/
def Differs (bound : Nat) (t : OpTree) : Prop :=
  ∃ (u : OpTree) (x y : Nat), u.shape = t.shape ∧ u.value? count = some (x : Int) ∧
    u.normal.value? count = some (y : Int) ∧ bound ≤ x ∧ bound ≤ y ∧ x ≠ y

/-- A right factor that divides can be given names such that its double is not what the regrouped
product of it and two is. -/
theorem exists_double_ne {r : OpTree} (har : r.IsArithmetic) (hr : r.Divides) {m : Nat}
    (hm : 0 < m) :
    ∃ (u : OpTree) (z : Nat), u.shape = r.shape ∧ u.value? count = some (m : Int) ∧
      m ≤ z + 1 ∧ z ≠ 2 * m ∧ ∀ {l : OpTree}, l.value? count = some ((2 : Nat) : Int) →
        (attach .times l u.normal).value? count = some (z : Int) := by
  induction r with
  | name w => exact hr.elim
  | leading o e => exact hr.elim
  | trailing e o => exact hr.elim
  | binary o b c ihb ihc =>
    obtain ⟨ho, hab, hac⟩ := har
    cases o with
    | divide =>
      -- The half of an odd number, and the half of its double.
      have hb : Passes (4 * m + 2) (2 * m + 1) (label (4 * m + 2) (2 * m + 1) b) :=
        passes_label hab (by omega)
      have hc : Passes 2 2 (label 2 2 c) := passes_label hac (Nat.le_refl 2)
      refine ⟨binary .divide (label (4 * m + 2) (2 * m + 1) b) (label 2 2 c), 2 * m + 1, ?_, ?_,
        by omega, by omega, fun hl => ?_⟩
      · rw [shape, shape, shape_label, shape_label]
      · rw [value?_binary_of_eq hb.value_eq hc.value_eq, BinaryOp.result?_divide _ (by decide),
          ← Int.ofNat_tdiv]
        exact congrArg (fun k : Nat => some (k : Int)) (by omega)
      · rw [normal, attach_attach rfl (by decide), hc.attach_apply (o := .divide) (by omega) rfl
          (hb.attach_eq hl (by omega)) (fun h => absurd h (by decide)),
          BinaryOp.result?_divide _ (by decide), ← Int.ofNat_tdiv]
        exact congrArg (fun k : Nat => some (k : Int)) (by omega)
    | modulo =>
      -- A number and its double, both modulo the next number.
      have hb : Passes (2 * m) m (label (2 * m) m b) := passes_label hab (by omega)
      have hc : Passes (m + 1) (m + 1) (label (m + 1) (m + 1) c) := passes_label hac (by omega)
      refine ⟨binary .modulo (label (2 * m) m b) (label (m + 1) (m + 1) c), m - 1, ?_, ?_,
        by omega, by omega, fun hl => ?_⟩
      · rw [shape, shape, shape_label, shape_label]
      · rw [value?_binary_of_eq hb.value_eq hc.value_eq,
          BinaryOp.result?_modulo_of_lt (Nat.lt_succ_self m)]
      · have hmod : 2 * m % (m + 1) = m - 1 := by
          rw [show 2 * m = m - 1 + (m + 1) by omega, Nat.add_mod_right, Nat.mod_eq_of_lt (by omega)]
        rw [normal, attach_attach rfl (by decide), hc.attach_apply (o := .modulo) (by omega) rfl
          (hb.attach_eq hl (by omega)) (fun h => absurd h (by decide)),
          BinaryOp.result?_modulo _ (by omega), ← Int.ofNat_tmod, hmod]
    | times =>
      obtain ⟨u, z, hshape, hvalue, hle, hne, hattach⟩ := ihb hab hr
      have hc : Passes (z + 1) 1 (label (z + 1) 1 c) := passes_label hac (by omega)
      refine ⟨binary .times u (label (z + 1) 1 c), z, ?_, ?_, hle, hne, fun hl => ?_⟩
      · rw [shape, shape, hshape, shape_label]
      · rw [value?_binary_of_eq hvalue hc.value_eq]
        exact congrArg some (Int.mul_one _)
      · rw [normal, attach_attach rfl rfl, hc.attach_eq (hattach hl) (by omega), Nat.mul_one]
    | _ => exact hr.elim

theorem differs_product {l r : OpTree} (hal : l.IsArithmetic) (har : r.IsArithmetic)
    (hr : r.Divides) (bound : Nat) : Differs bound (binary .times l r) := by
  obtain ⟨u, z, hshape, hvalue, hle, hne, hattach⟩ := exists_double_ne har hr bound.succ_pos
  have hl : Passes 2 2 (label 2 2 l) := passes_label hal (Nat.le_refl 2)
  refine ⟨binary .times (label 2 2 l) u, 2 * bound.succ, z, ?_, ?_, ?_, by omega, by omega,
    hne.symm⟩
  · rw [shape, shape, shape_label, hshape]
  · rw [value?_binary_of_eq hl.value_eq hvalue]
    rfl
  · rw [normal]
    exact hattach (hl.normal_eq (by omega))

theorem differs_left {o : BinaryOp} (ho : o.isArithmetic = true) {l r : OpTree} {bound : Nat}
    (h : Differs bound l) (har : r.IsArithmetic) : Differs bound (binary o l r) := by
  obtain ⟨u, x, y, hshape, hx, hy, hbx, hby, hne⟩ := h
  have hr := passes_label har (o.neutral_le (max x y))
  refine ⟨binary o u (label (max x y + 1) (o.neutral (max x y)) r), x, y, ?_, ?_, ?_, hbx, hby, hne⟩
  · rw [shape, shape, hshape, shape_label]
  · rw [value?_binary_of_eq hx hr.value_eq, BinaryOp.result?_neutral ho (Nat.le_max_left x y)]
  · rw [normal, hr.attach_apply (o.neutral_le _) ho hy,
      BinaryOp.result?_neutral ho (Nat.le_max_right x y)]
    rintro rfl
    show y * 1 ≤ max x y + 1
    omega

/-- A difference in the right operand shows with a suitable left operand. -/
theorem differs_right {o : BinaryOp} (ho : o.isArithmetic = true) {l r : OpTree} {bound : Nat}
    (hal : l.IsArithmetic) (h : Differs (bound + 1) r) : Differs bound (binary o l r) := by
  obtain ⟨u, x, y, hshape, hx, hy, hbx, hby, hne⟩ := h
  obtain ⟨q, hq, x', y', hx', hy', hbx', hby', hne'⟩ := BinaryOp.exists_apart ho hbx hby hne
  have hl := passes_label hal (Nat.le_refl q)
  have hlnormal := hl.normal_eq (Nat.le_refl q)
  refine ⟨binary o (label q q l) u, x', y', ?_, ?_, ?_, hbx', hby', hne'⟩
  · rw [shape, shape, shape_label, hshape]
  · rw [value?_binary_of_eq hl.value_eq hx, hx']
  · have hbinary : (binary o (label q q l).normal u.normal).value? count = some (y' : Int) := by
      rw [value?_binary_of_eq hlnormal hy, hy']
    rw [normal]
    cases o with
    | plus => rwa [value?_attach_plus]
    | times =>
      obtain rfl := hq rfl
      rw [value?_attach_one hlnormal, hy, ← hy']
      exact congrArg some (Int.one_mul _).symm
    | minus => rwa [attach_of_not_regroups rfl]
    | divide => rwa [attach_of_not_regroups rfl]
    | modulo => rwa [attach_of_not_regroups rfl]
    | _ => exact absurd ho (by decide)

/-- **A tree in which a right factor divides can be given another value by regrouping.** -/
theorem differs_of_not_keepsFactors {t : OpTree} (ht : t.IsArithmetic) (h : ¬ t.KeepsFactors) :
    ∀ bound, Differs bound t := by
  induction t with
  | name w => exact absurd trivial h
  | leading o e => exact ht.elim
  | trailing e o => exact ht.elim
  | binary o l r ihl ihr =>
    obtain ⟨ho, hal, har⟩ := ht
    intro bound
    by_cases hl : l.KeepsFactors
    · by_cases hr : r.KeepsFactors
      · obtain ⟨rfl, hdiv⟩ : o = .times ∧ r.Divides := by
          by_contra hne
          exact h ⟨fun ho hd => hne ⟨ho, hd⟩, hl, hr⟩
        exact differs_product hal har hdiv bound
      · exact differs_right ho hal (ihr har hr (bound + 1))
    · exact differs_left ho (ihl hal hl bound) har

/-! ## Printing -/

/-- **The printed texts of the trees of one shape have the values of the trees exactly if no right
factor is a division.** -/
theorem keepsFactors_iff {t : OpTree} (ht : t.IsArithmetic) :
    t.KeepsFactors ↔ ∀ u : OpTree, u.shape = t.shape → ∀ n : Node, n.Denotes u →
      ∀ (o : PrintOptions) (env : Word → Int) (v : Int), u.value? env = some v →
        ∃ text, n.print o = .ok text ∧ textValue? env text = some v := by
  have harith : ∀ {u : OpTree}, u.shape = t.shape → u.IsArithmetic := fun {u} hu => by
    rw [← isArithmetic_shape, hu, isArithmetic_shape]
    exact ht
  constructor
  · intro h u hu n hn o env v hv
    rw [← keepsFactors_shape, ← hu, keepsFactors_shape] at h
    refine ⟨u.text false, hn.print_eq o, ?_⟩
    rw [textValue?_text (harith hu), value?_normal (harith hu) h, hv]
  · intro h
    by_contra hkeeps
    obtain ⟨u, x, y, hu, hx, hy, -, -, hne⟩ := differs_of_not_keepsFactors ht hkeeps 0
    have hn := denotes_toNode (.sourceless ⟨0⟩) u
    obtain ⟨text, hprint, htext⟩ := h u hu _ hn {} count x hx
    rw [hn.print_eq] at hprint
    rw [← Except.ok.inj hprint, textValue?_text (harith hu), hy] at htext
    exact hne (Int.ofNat.inj (Option.some.inj htext)).symm

/-- The text of `a + (b - c)` has the value of the tree. -/
theorem keepsFactors_iff_sum :
    let a := name (.single 'a' (by decide))
    let b := name (.single 'b' (by decide))
    let c := name (.single 'c' (by decide))
    let t := binary .plus a (binary .minus b c)
    t.IsArithmetic ∧ ∀ env v, t.value? env = some v →
      ∃ text, (t.toNode (.sourceless ⟨0⟩)).print {} = .ok text ∧ textValue? env text = some v := by
  intro a b c t
  have ht : t.IsArithmetic := ⟨rfl, trivial, rfl, trivial, trivial⟩
  have hkeeps : t.KeepsFactors := ⟨nofun, trivial, nofun, trivial, trivial⟩
  exact ⟨ht, (keepsFactors_iff ht).1 hkeeps t rfl _ (denotes_toNode _ t) {}⟩

/-- **The text of `a * (b / c)` is `a * b / c`, which has another value.** -/
theorem product_of_quotient_ne :
    let a : Word := .single 'a' (by decide)
    let b : Word := .single 'b' (by decide)
    let c : Word := .single 'c' (by decide)
    let t := binary .times (name a) (binary .divide (name b) (name c))
    let env : Word → Int := fun w => if w = b then 3 else 2
    (t.toNode (.sourceless ⟨0⟩)).print {} = .ok "a * b / c" ∧ t.value? env = some 2 ∧
      textValue? env "a * b / c" = some 3 := by
  intro a b c t env
  have ht : t.IsArithmetic := ⟨rfl, trivial, rfl, trivial, trivial⟩
  have htext : t.text false = "a * b / c" := by decide
  have hnormal : t.normal = binary .divide (binary .times (name a) (name b)) (name c) := rfl
  refine ⟨?_, by decide, ?_⟩
  · rw [(denotes_toNode _ t).print_eq, htext]
  · rw [← htext, textValue?_text ht, hnormal]
    decide

end OpTree

end ChapelSource
