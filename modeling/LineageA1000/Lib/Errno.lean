import Mathlib.Data.Int.Notation

/-!
# Error numbers and guarded results

Kernel functions return `0` or a positive value on success and the negated error number on failure.
A function that checks its arguments one after another succeeds when no check fires.
-/

namespace LineageA1000

abbrev EPERM : Int := 1
abbrev ENOENT : Int := 2
abbrev EAGAIN : Int := 11
abbrev ENOMEM : Int := 12
abbrev EACCES : Int := 13
abbrev EFAULT : Int := 14
abbrev EBUSY : Int := 16
abbrev EEXIST : Int := 17
abbrev ENODEV : Int := 19
abbrev ENOTDIR : Int := 20
abbrev EISDIR : Int := 21
abbrev EINVAL : Int := 22
abbrev ENOTTY : Int := 25
abbrev ENOSPC : Int := 28
abbrev ENOSYS : Int := 38
abbrev ENOTEMPTY : Int := 39
abbrev ENODATA : Int := 61
abbrev EOPNOTSUPP : Int := 95
abbrev ETIMEDOUT : Int := 110

theorem ite_error_eq_ok {ε α : Type*} {p : Prop} [Decidable p] {e : ε} {x : Except ε α} {a : α} :
    (if p then .error e else x) = .ok a ↔ ¬ p ∧ x = .ok a := by
  by_cases hp : p <;> simp [hp]

theorem ite_eq_ok_of_error {ε α : Type*} {p : Prop} [Decidable p] {e : ε} {x : Except ε α} {a : α} :
    (if p then x else .error e) = .ok a ↔ p ∧ x = .ok a := by
  by_cases hp : p <;> simp [hp]

theorem ok_bind {ε α β : Type} (a : α) (f : α → Except ε β) : (Except.ok a >>= f) = f a := rfl

theorem error_bind {ε α β : Type} (e : ε) (f : α → Except ε β) :
    ((Except.error e : Except ε α) >>= f) = .error e := rfl

theorem bind_eq_ok {ε α β : Type} {x : Except ε α} {f : α → Except ε β} {b : β} :
    x >>= f = .ok b ↔ ∃ a, x = .ok a ∧ f a = .ok b := by
  cases x with
  | error e => simp [bind, Except.bind]
  | ok a => simp [ok_bind]

end LineageA1000
