import Mathlib.Data.List.Infix
import RustClash.Config.YamlSlices

/-!
# Proxies in block style

The `proxies:` section as a writer of YAML lays it out: a value stands after its key,
or under it, further to the right, as a mapping or as a sequence of scalars.  A
scalar is plain or between quotes.  `Faithful` is what a reader of the section owes
to the list that was written.
-/

namespace RustClash

namespace Config.BlockYaml

open Str Checked

/-! ## Scalars -/

/-- A scalar, by the way it is written. -/
inductive Scalar where
  | plain (s : Str)
  | single (s : Str)
  | double (s : Str)

namespace Scalar

/-- The text a scalar stands for. -/
def text : Scalar → Str
  | .plain s | .single s | .double s => s

/-- Between single quotes a quote is written twice. -/
def doubled (s : Str) : Str := s.flatMap fun c => if c = '\'' then ['\'', '\''] else [c]

/-- Between double quotes a quote and a backslash follow a backslash. -/
def escaped (s : Str) : Str := s.flatMap fun c => if c = '"' ∨ c = '\\' then ['\\', c] else [c]

def written : Scalar → Str
  | .plain s => s
  | .single s => '\'' :: (doubled s ++ ['\''])
  | .double s => '"' :: (escaped s ++ ['"'])

end Scalar

/-- No blank stands at either end of the text. -/
structure Tight (s : Str) : Prop where
  first : ∀ c ∈ s.head?, isWhiteSpace c = false
  last : ∀ c ∈ s.getLast?, isWhiteSpace c = false

/-- The characters that mean something to YAML at the start of a text. -/
def indicators : Str := ",[]\x7b\x7d#&*!|>'\"%@\x60".toList

/-- A text that is a scalar without quotes. -/
structure Plain (s : Str) : Prop where
  nonempty : s ≠ []
  tight : Tight s
  indicator : ∀ c ∈ s.head?, c ∉ indicators
  marker : ∀ c ∈ ['-', '?', ':'], s ≠ [c] ∧ ¬ [c, ' '] <+: s
  inner : ¬ ": ".toList <:+: s ∧ ¬ " #".toList <:+: s
  last : ¬ endsWith ':' s

/-- A key without punctuation that means something to YAML. -/
structure Key (k : Str) : Prop where
  nonempty : k ≠ []
  tight : Tight k
  indicator : ∀ c ∈ k.head?, c ∉ '-' :: '?' :: indicators
  noColon : ':' ∉ k

instance (s : Str) : Decidable (Tight s) :=
  decidable_of_iff ((s.head?.all fun c => !isWhiteSpace c) = true ∧
      (s.getLast?.all fun c => !isWhiteSpace c) = true) (by
    simp only [Option.all_eq_true, Bool.not_eq_true']
    exact ⟨fun ⟨h1, h2⟩ => ⟨h1, h2⟩, fun ⟨h1, h2⟩ => ⟨h1, h2⟩⟩)

instance (s : Str) : Decidable (Plain s) :=
  decidable_of_iff (s ≠ [] ∧ Tight s ∧ (s.head?.all fun c => c ∉ indicators) = true ∧
      (['-', '?', ':'].all fun c => s ≠ [c] ∧ ¬ [c, ' '] <+: s) = true ∧
      (¬ ": ".toList <:+: s ∧ ¬ " #".toList <:+: s) ∧ ¬ endsWith ':' s) (by
    simp only [Option.all_eq_true, List.all_eq_true, decide_eq_true_eq]
    exact ⟨fun ⟨h1, h2, h3, h4, h5, h6⟩ => ⟨h1, h2, h3, h4, h5, h6⟩,
      fun ⟨h1, h2, h3, h4, h5, h6⟩ => ⟨h1, h2, h3, h4, h5, h6⟩⟩)

instance (k : Str) : Decidable (Key k) :=
  decidable_of_iff (k ≠ [] ∧ Tight k ∧
      (k.head?.all fun c => c ∉ '-' :: '?' :: indicators) = true ∧ ':' ∉ k) (by
    simp only [Option.all_eq_true, decide_eq_true_eq]
    exact ⟨fun ⟨h1, h2, h3, h4⟩ => ⟨h1, h2, h3, h4⟩, fun ⟨h1, h2, h3, h4⟩ => ⟨h1, h2, h3, h4⟩⟩)

def Scalar.Ok : Scalar → Prop
  | .plain s => Plain s
  | .single _ | .double _ => True

/-! ## Documents -/

mutual

/-- A value under a key.  A mapping stands `extra + 1` columns to the right of the key, a
sequence `extra` columns. -/
inductive Value where
  | scalar (w : Scalar)
  | mapping (extra : Nat) (entries : Entries)
  | sequence (extra : Nat) (items : List Scalar)

inductive Entries where
  | nil
  | cons (key : Str) (value : Value) (entries : Entries)

end

def spaces (n : Nat) : Str := List.replicate n ' '

/-- What stands in the line of a key. -/
def pairText (key : Str) : Value → Str
  | .scalar w => key ++ ':' :: ' ' :: w.written
  | .mapping .. | .sequence .. => key ++ [':']

/-- The line of an item of a sequence of scalars. -/
def itemText (w : Scalar) : Str := '-' :: ' ' :: w.written

mutual

/-- The lines under a key in the column `col`. -/
def Value.lines : Value → (col : Nat) → List Str
  | .scalar _, _ => []
  | .mapping extra es, col => es.lines (col + 1 + extra)
  | .sequence extra items, col => items.map fun w => spaces (col + extra) ++ itemText w

def Entries.lines : Entries → (col : Nat) → List Str
  | .nil, _ => []
  | .cons key v es, col => (spaces col ++ pairText key v) :: (v.lines col ++ es.lines col)

end

mutual

/-- The scalars of a value with their dotted keys, `path` being that of the value. -/
def Value.leaves : Value → (path : Str) → List (Str × Scalar)
  | .scalar w, path => [(path, w)]
  | .mapping _ es, path => es.leaves (path ++ ['.'])
  | .sequence .., _ => []

/-- The scalars of a mapping whose keys follow `above`. -/
def Entries.leaves : Entries → (above : Str) → List (Str × Scalar)
  | .nil, _ => []
  | .cons key v es, above => v.leaves (above ++ key) ++ es.leaves above

end

mutual

/-- The items of the sequences in a value. -/
def Value.items : Value → List Scalar
  | .scalar _ => []
  | .mapping _ es => es.items
  | .sequence _ items => items

def Entries.items : Entries → List Scalar
  | .nil => []
  | .cons _ v es => v.items ++ es.items

end

mutual

def Value.Ok : Value → Prop
  | .scalar w => w.Ok
  | .mapping _ es => es.Ok
  | .sequence _ items => ∀ w ∈ items, w.Ok

def Entries.Ok : Entries → Prop
  | .nil => True
  | .cons key v es => Key key ∧ v.Ok ∧ es.Ok

end

/-- A proxy is a mapping that is not empty. -/
structure Proxy where
  key : Str
  value : Value
  entries : Entries

namespace Proxy

def all (p : Proxy) : Entries := .cons p.key p.value p.entries

/-- The first key follows the dash, the others stand under it. -/
def lines (indent : Nat) (p : Proxy) : List Str :=
  (spaces indent ++ '-' :: ' ' :: pairText p.key p.value) ::
    (p.value.lines (indent + 2) ++ p.entries.lines (indent + 2))

def leaves (p : Proxy) : List (Str × Scalar) := p.all.leaves []

def items (p : Proxy) : List Scalar := p.all.items

/-- The proxy can be written, and no two of its scalars have one dotted key. -/
structure Ok (p : Proxy) : Prop where
  all : p.all.Ok
  distinct : (p.leaves.map (·.1)).Nodup

end Proxy

/-- The section, its items indented by `indent` columns. -/
def render (indent : Nat) (ps : List Proxy) : List Str :=
  "proxies:".toList :: ps.flatMap (Proxy.lines indent)

/-- The reader returns one entry for each proxy, with every scalar of it at its dotted key. -/
def Faithful (indent : Nat) (ps : List Proxy) : Prop :=
  ∃ maps, parseProxiesSection (render indent ps) = .ok maps ∧
    List.Forall₂ (fun p map => ∀ leaf ∈ Proxy.leaves p, map.lookup leaf.1 = some leaf.2.text) ps maps

/-! ## What becomes of a scalar -/

namespace Scalar

/-- The text that `unquote` makes of a scalar. -/
def read : Scalar → Str
  | .plain s | .double s => s
  | .single s => replaceAll "\\\\".toList "\\".toList (replaceAll "\\\"".toList "\"".toList (doubled s))

/-- The scalar is not empty, and a text between single quotes has no quote and nothing that
would be an escape between double quotes. -/
def Readable : Scalar → Prop
  | .plain _ => True
  | .single s => s ≠ [] ∧ '\'' ∉ s ∧ ¬ "\\\"".toList <:+: s ∧ ¬ "\\\\".toList <:+: s
  | .double s => s ≠ []

end Scalar

end Config.BlockYaml

end RustClash
