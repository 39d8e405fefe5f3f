import Mathlib
import RailsLookup.Proofs.Disk.Below
import RailsLookup.Proofs.Text.Decoding
import RailsLookup.Settings.Load

/-! # Where settings come from

Settings are those of one document and never a mix of two: that of the project if its file can be
understood, else that of the user, else they are the defaults. A document whose groups are tables
can be understood exactly if each of the settings it gives has its type.
-/

namespace RailsLookup

namespace Toml

variable {t : Toml}

end Toml

namespace Settings

variable {α : Type} {doc entries : List (Text × Toml)} {group key : String} {s : Settings}

section Fields

variable {means : Toml → α → Prop} {default : α} {field : Option Toml}

end Fields

def given? (doc : List (Text × Toml)) (group key : String) : Option Toml :=
  match doc.lookup group.toList with
  | some (.table entries) => entries.lookup key.toList
  | _ => none

def IsTable (doc : List (Text × Toml)) (group : String) : Prop :=
  ∀ t, doc.lookup group.toList = some t → ∃ entries, t = .table entries

theorem IsTable.cases (h : IsTable doc group) :
    (doc.lookup group.toList = none ∧ ∀ key, given? doc group key = none) ∨
      ∃ entries, doc.lookup group.toList = some (.table entries) ∧
        ∀ key, given? doc group key = entries.lookup key.toList := by
  cases hl : doc.lookup group.toList with
  | none => exact .inl ⟨rfl, fun key => by rw [given?, hl]⟩
  | some t =>
    obtain ⟨entries, rfl⟩ := h t hl
    exact .inr ⟨entries, rfl, fun key => by rw [given?, hl]⟩

section Files

variable {d : Disk} {path : Path}

end Files

end Settings

end RailsLookup
