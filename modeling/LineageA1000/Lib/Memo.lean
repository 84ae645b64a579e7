import Mathlib.Logic.Function.Basic

/-!
# Memo tables

A table keeps what a generator made for each key when the key first came up. The generator also
reads a setting that is no part of the key. A second table, filled in the same way with the setting
itself, says which setting each entry was made under; what a lookup answers can then be read off
without following the table through its history.
-/

namespace LineageA1000.Memo

variable {Key Setting Value : Type*} [DecidableEq Key]

/-- The table once the key has an entry: the old one, or one made under the setting. -/
def ensure (generate : Key → Setting → Value) (setting : Setting) (table : Key → Option Value)
    (key : Key) : Key → Option Value :=
  match table key with
  | none => Function.update table key (some (generate key setting))
  | some _ => table

/-- The table of the settings under which the entries were made. -/
def note (setting : Setting) (made : Key → Option Setting) (key : Key) : Key → Option Setting :=
  ensure (fun _ setting => setting) setting made key

/-- Every entry is what the generator makes under the setting noted for it. -/
def Remembers (generate : Key → Setting → Value) (made : Key → Option Setting)
    (table : Key → Option Value) : Prop :=
  ∀ key, table key = (made key).map (generate key)

variable {generate : Key → Setting → Value} {made : Key → Option Setting}
  {table : Key → Option Value}

theorem note_self (setting : Setting) (made : Key → Option Setting) (key : Key) :
    note setting made key key = some ((made key).getD setting) := by
  unfold note ensure
  cases hmade : made key with
  | none => exact Function.update_self ..
  | some earlier => exact hmade

theorem Remembers.ensure (h : Remembers generate made table) (setting : Setting) (key : Key) :
    Remembers generate (note setting made key) (ensure generate setting table key) := by
  intro other
  unfold note Memo.ensure
  rw [h key]
  cases hmade : made key with
  | none =>
      by_cases hkey : other = key
      · subst hkey
        simp only [Option.map_none, Function.update_self, Option.map_some]
      · simp only [Option.map_none, Function.update_of_ne hkey]
        exact h other
  | some earlier =>
      simp only [Option.map_some]
      exact h other

theorem Remembers.ensureAll (h : Remembers generate made table) (setting : Setting)
    (keys : List Key) :
    Remembers generate (keys.foldl (note setting) made)
      (keys.foldl (Memo.ensure generate setting) table) := by
  induction keys generalizing made table with
  | nil => exact h
  | cons key keys ih => exact ih (h.ensure setting key)

/-- A lookup that makes a missing entry answers with what the generator makes under the setting
noted for the key, or under the present one if none was. -/
theorem Remembers.lookup (h : Remembers generate made table) (setting : Setting) (key : Key) :
    Memo.ensure generate setting table key key =
      some (generate key ((made key).getD setting)) := by
  rw [h.ensure setting key key, note_self]
  rfl

end LineageA1000.Memo
