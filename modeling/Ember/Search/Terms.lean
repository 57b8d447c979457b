import Mathlib

/-! A query of the search box against a lowercased name, and the keyword a lookup of it may be run on. A query is a boolean
expression over words; what is negated is subtracted from what the rest searches for. -/
namespace Ember.Search
open List

abbrev Chars := List Char

def utf8Len (s : Chars) : Nat := (s.map Char.utf8Size).sum

def isWhitespace (c : Char) : Bool :=
  (9 ≤ c.toNat && c.toNat ≤ 13) || (0x2000 ≤ c.toNat && c.toNat ≤ 0x200A) ||
    [0x20,0x85,0xA0,0x1680,0x2028,0x2029,0x202F,0x205F,0x3000].contains c.toNat

def trim (s : Chars) : Chars := ((s.dropWhile isWhitespace).reverse.dropWhile isWhitespace).reverse

inductive QueryExpr where
  | term (s : Chars)
  | and (l r : QueryExpr)
  | or (l r : QueryExpr)
  | not (l r : QueryExpr)

def invKadKeywordChars : List Char :=
  [' ','(',')','[',']','{','}','<','>',',','.','_','-','!','?',':',';','\\','/','"']

def isKadKeywordSeparator (c : Char) : Bool := invKadKeywordChars.contains c

namespace QueryExpr

theorem mem_union {terms out : List Chars} {k : Chars}
    (listed : k ∈ terms.foldl (fun out term => if term ∈ out then out else out++[term]) out) : k ∈ out ∨ k ∈ terms := by
  induction terms generalizing out with
  | nil => exact .inl listed
  | cons term rest ih =>
    rcases ih listed with early | late
    · dsimp only at early
      split at early
      · exact .inl early
      refine (mem_append.1 early).imp_right fun own => ?_
      rw [mem_singleton.1 own]
      exact mem_cons_self
    · exact .inr (mem_cons_of_mem _ late)

variable (h : Chars)

/-- Every term has to be a whole word of the name. -/
def matchesWholeWords : QueryExpr → Bool
  | term s => (h.splitOnP isKadKeywordSeparator).any (· == s)
  | and l r => l.matchesWholeWords && r.matchesWholeWords
  | or l r => l.matchesWholeWords || r.matchesWholeWords
  | not l r => l.matchesWholeWords && !r.matchesWholeWords

/-- A term may stand anywhere in the name; an exclusion has to be a whole word. -/
def matchesLower : QueryExpr → Bool
  | term s => decide (s <:+: h)
  | and l r => l.matchesLower && r.matchesLower
  | or l r => l.matchesLower || r.matchesLower
  | not l r => l.matchesLower && !r.matchesWholeWords h

def requiredTerms : QueryExpr → List Chars
  | term s => [s]
  | and l r => r.requiredTerms.foldl (fun out term => if term ∈ out then out else out++[term]) l.requiredTerms
  | or l r => l.requiredTerms.filter (· ∈ r.requiredTerms)
  | not l _ => l.requiredTerms

def withoutTerm (keyword : Chars) : QueryExpr → Option QueryExpr
  | term s => if s = keyword then none else some (term s)
  | and l r =>
    match l.withoutTerm keyword, r.withoutTerm keyword with
    | none, none => none
    | some x, none => some x
    | none, some x => some x
    | some a, some b => some (and a b)
  | or l r => some (or l r)
  | not l r => some (not l r)

variable {h} {e : QueryExpr} {k : Chars}

theorem contains_required (found : e.matchesLower h = true) (listed : k ∈ e.requiredTerms) : k <:+: h := by
  induction e with
  | term s =>
    rw [List.mem_singleton.1 listed]
    exact of_decide_eq_true found
  | and l r left right =>
    obtain ⟨first,second⟩ := Bool.and_eq_true_iff.1 found
    exact (mem_union listed).elim (left first) (right second)
  | or l r left right =>
    obtain ⟨first,second⟩ := List.mem_filter.1 listed
    exact (Bool.or_eq_true_iff.1 found).elim (left · first) (right · (of_decide_eq_true second))
  | not l r left => exact left (Bool.and_eq_true_iff.1 found).1 listed

theorem matches_withoutTerm (held : k <:+: h) : e.matchesLower h = (e.withoutTerm k).all (matchesLower h) := by
  induction e with
  | term s =>
    unfold withoutTerm
    split
    · rename_i same
      exact decide_eq_true (same ▸ held)
    · rfl
  | and l r left right =>
    rw [matchesLower,left,right,withoutTerm]
    cases l.withoutTerm k <;> cases r.withoutTerm k <;> simp [matchesLower]
  | or => rfl
  | not => rfl

/-- A lookup on a required keyword loses no match, and the rest of the query decides it. -/
theorem required_lookup_complete (e : QueryExpr) (h k : Chars) (listed : k ∈ e.requiredTerms) :
    (e.matchesLower h = true ↔
      k <:+: h ∧ (e.withoutTerm k = none ∨ ∃ rest, e.withoutTerm k = some rest ∧ rest.matchesLower h = true)) ∧
    ∀ term ∈ e.requiredTerms, e.matchesLower h = true → term <:+: h := by
  refine ⟨⟨fun found => ?_,fun ⟨held,rest⟩ => ?_⟩,fun term own found => contains_required found own⟩
  · have held := contains_required found listed
    rw [matches_withoutTerm held] at found
    cases left : e.withoutTerm k with
    | none => exact ⟨held,.inl rfl⟩
    | some rest =>
      rw [left] at found
      exact ⟨held,.inr ⟨rest,rfl,found⟩⟩
  · rw [matches_withoutTerm held]
    rcases rest with none | ⟨rest,left,found⟩
    · rw [none]
      rfl
    · rw [left]
      exact found

theorem required_lookup_complete_linux :
    let e : QueryExpr := .not (.and (.term "linux".toList) (.term "iso".toList)) (.term "arm".toList)
    let h := "linux desktop.iso".toList
    "iso".toList ∈ e.requiredTerms ∧ (∃ rest, e.withoutTerm "iso".toList = some rest ∧ rest.matchesLower h = true) ∧
      "linux".toList <:+: h := by
  intro e h
  obtain ⟨same,all⟩ := required_lookup_complete e h "iso".toList (by decide)
  have found : e.matchesLower h = true := by decide
  exact ⟨by decide,(same.1 found).2.resolve_left (by decide),all _ (by decide) found⟩

end QueryExpr
end Ember.Search
