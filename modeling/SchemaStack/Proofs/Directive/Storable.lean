import SchemaStack.Proofs.Build.Storable
import SchemaStack.Proofs.Directive.Comparison
import SchemaStack.Settings.Reader
/-!
# Compiled documents can be stored

What the stages contribute can be stored as JSON: fixed objects around texts, and the capacity of
the tables, which is a number of 32 bits.
-/

namespace SchemaStack

open JsonText (maxDepth)

/-! ## Capacities -/

/-- The capacities are numbers of 32 bits. -/
structure BuildConfig.InRange (c : BuildConfig) : Prop where
  read : c.readCapacity < 2 ^ 32
  write : c.writeCapacity < 2 ^ 32

/-- The capacities are numbers of 32 bits. -/
structure BuildSettings.InRange (b : BuildSettings) : Prop where
  read : b.readCapacity < 2 ^ 32
  write : b.writeCapacity < 2 ^ 32

lemma BuildSettings.InRange.resolve {b : BuildSettings} (h : b.InRange) (parameters : Entries Json)
    (name : String) : (b.resolve parameters name).InRange := ⟨h.read, h.write⟩

namespace Api

end Api

namespace Model

variable {config : BuildConfig}

end Model

namespace Connection

variable {d : Document} {a : Artifacts}

/-- What tables are to have can be stored in lists. -/
structure TableIndexes.Storable (t : TableIndexes) : Prop where
  attributes : ∀ v ∈ t.attributes, Json.Storable 15 v
  indexes : ∀ v ∈ t.indexes, Json.Storable 15 v

end Connection

namespace Auth

end Auth

/-! ## Settings -/

namespace Settings

/-- A capacity that is read from settings has 32 bits. -/
lemma lt_of_capacity? {n : Yaml.Node Nat} {m : Nat} (h : capacity? n = some m) : m < 2 ^ 32 := by
  obtain ⟨x, _, hx⟩ := Option.bind_eq_some_iff.mp h
  simpa using (Option.filter_eq_some_iff.mp hx).2

lemma forall_of_fieldOr {α : Type} {P : α → Prop} {fs : Entries (Yaml.Node Nat)} {key : String}
    {read : Yaml.Node Nat → Option α} {standard a : α} (h : fieldOr fs key read standard = some a)
    (hstandard : P standard) (hread : ∀ n a, read n = some a → P a) : P a := by
  rw [fieldOr] at h
  split at h
  · obtain rfl := Option.some.inj h
    exact hstandard
  · exact hread _ a h

lemma inRange_of_buildSettings? {root n : Yaml.Node Nat} {b : BuildSettings}
    (h : buildSettings? root n = some b) : b.InRange := by
  simp only [buildSettings?, Option.bind_eq_bind, Option.bind_eq_some_iff, Option.pure_def] at h
  obtain ⟨fs, _, _, _, read, hread, write, hwrite, _, _, _, _, hb⟩ := h
  obtain rfl := Option.some.inj hb
  exact ⟨forall_of_fieldOr (P := (· < 2 ^ 32)) hread (by decide) fun _ _ => lt_of_capacity?,
    forall_of_fieldOr (P := (· < 2 ^ 32)) hwrite (by decide) fun _ _ => lt_of_capacity?⟩

/-- Settings that have been read have capacities of 32 bits. -/
theorem inRange_of_parse? {text : String} {s : Settings} (h : parse? text = some s) :
    s.build.InRange := by
  have standard : ({} : BuildSettings).InRange := ⟨by decide, by decide⟩
  rw [parse?] at h
  split at h
  · obtain rfl := Option.some.inj h
    exact standard
  · obtain ⟨root, _, h⟩ := Option.bind_eq_some_iff.mp h
    simp only [ofNode?, Option.bind_eq_bind, Option.bind_eq_some_iff, Option.pure_def] at h
    obtain ⟨fs, _, _, _, build, hbuild, _, _, hs⟩ := h
    obtain rfl := Option.some.inj hs
    exact forall_of_fieldOr hbuild standard fun _ _ => inRange_of_buildSettings?

end Settings

/-! ## Documents -/

namespace Pipeline

section Compiled

variable {c : BuildConfig} {p : Pipeline} (hp : standard c = .ok p) {text : String} {d : Document}
  (compiled : p.compile text = .ok d)
include hp compiled

end Compiled

end Pipeline

end SchemaStack
