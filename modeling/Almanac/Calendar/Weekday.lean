/-!
# Days of the week

The seven days in the order Monday to Sunday. Two operations carry all weekday arithmetic:
`Weekday.index` counts from Monday, and `Weekday.after` counts the days from the first day of a
week that may start on any day.
-/

namespace Almanac

/-- A day of the week. -/
inductive Weekday where
  | monday
  | tuesday
  | wednesday
  | thursday
  | friday
  | saturday
  | sunday
deriving DecidableEq, Repr, Inhabited

namespace Weekday

/-- The seven days, Monday first. -/
def all : List Weekday :=
  [monday, tuesday, wednesday, thursday, friday, saturday, sunday]

/-- Days after Monday. -/
def index : Weekday → Nat
  | monday => 0
  | tuesday => 1
  | wednesday => 2
  | thursday => 3
  | friday => 4
  | saturday => 5
  | sunday => 6

/-- The day so many days after a Monday. -/
def ofIndex (n : Nat) : Weekday :=
  match n % 7 with
  | 0 => monday
  | 1 => tuesday
  | 2 => wednesday
  | 3 => thursday
  | 4 => friday
  | 5 => saturday
  | _ => sunday

/-- The position of a day, from zero, in a week that begins on `first`. -/
def after (day first : Weekday) : Nat :=
  (7 + day.index - first.index) % 7

/-- The two-letter code of a day. -/
def code : Weekday → String
  | monday => "MO"
  | tuesday => "TU"
  | wednesday => "WE"
  | thursday => "TH"
  | friday => "FR"
  | saturday => "SA"
  | sunday => "SU"

/-- The day with a given upper-case code. -/
def ofCode? (code : String) : Option Weekday :=
  all.find? fun day => day.code == code

theorem index_lt (day : Weekday) : day.index < 7 := by
  cases day <;> decide

@[simp] theorem ofIndex_index (day : Weekday) : ofIndex day.index = day := by
  cases day <;> rfl

@[simp] theorem index_ofIndex (n : Nat) : (ofIndex n).index = n % 7 := by
  have key : ∀ r : Fin 7, (ofIndex r.val).index = r.val := by decide
  have mod : ofIndex n = ofIndex (n % 7) := by simp [ofIndex]
  rw [mod]
  exact key ⟨n % 7, Nat.mod_lt n (by decide)⟩

theorem after_lt (day first : Weekday) : day.after first < 7 :=
  Nat.mod_lt _ (by decide)

@[simp] theorem ofCode?_code (day : Weekday) : ofCode? day.code = some day := by
  cases day <;> decide

end Weekday

end Almanac
