import Mathlib.Logic.Function.Basic
import Mathlib.Data.List.Basic

/-! # A store whose fields are written one word at a time

Every field has values of its own, and a way to read a word into one; a word
that cannot be read refuses the whole writing. What a field holds in the end
depends on the last word written to it alone, whatever was written to others.
-/

namespace NorelecBot.Lib.Store

variable {κ ω : Type*} {α : κ → Type*} [DecidableEq κ]

def write (read : (k : κ) → ω → Option (α k)) (store : (k : κ) → α k) (word : κ × ω) : Option ((k : κ) → α k) :=
  (read word.1 word.2).map (Function.update store word.1)

def writeAll (read : (k : κ) → ω → Option (α k)) (store : (k : κ) → α k) (words : List (κ × ω)) :
    Option ((k : κ) → α k) :=
  words.foldlM (write read) store

theorem writeAll_append (read : (k : κ) → ω → Option (α k)) (store : (k : κ) → α k) (words more : List (κ × ω)) :
    writeAll read store (words ++ more) =
      (writeAll read store words).bind fun next => writeAll read next more :=
  List.foldlM_append

def lastWord : List (κ × ω) → κ → Option ω
  | [], _ => none
  | word :: words, k => (lastWord words k).or (if word.1 = k then some word.2 else none)

/-- What the fields hold once every one has read its last word. -/
def settled (read : (k : κ) → ω → Option (α k)) (store : (k : κ) → α k) (last : κ → Option ω) (k : κ) : α k :=
  ((last k).bind (read k)).getD (store k)

@[simp] theorem lastWord_nil (k : κ) : lastWord ([] : List (κ × ω)) k = none := rfl

theorem lastWord_append (words more : List (κ × ω)) (k : κ) :
    lastWord (words ++ more) k = (lastWord more k).or (lastWord words k) := by
  induction words with
  | nil => simp
  | cons word words ih => simp [lastWord, ih, Option.or_assoc]

/-- Words written to other fields are not the last of this one. -/
theorem lastWord_eq_none {words : List (κ × ω)} {k : κ} (h : ∀ word ∈ words, word.1 ≠ k) : lastWord words k = none := by
  induction words with
  | nil => simp
  | cons word words ih =>
    have hrest := ih fun other hother => h other (List.mem_cons_of_mem word hother)
    simp [lastWord, hrest, h word List.mem_cons_self]

theorem mem_of_lastWord {words : List (κ × ω)} {k : κ} {text : ω} (h : lastWord words k = some text) :
    (k, text) ∈ words := by
  induction words with
  | nil => simp at h
  | cons word words ih =>
    rw [lastWord, Option.or_eq_some_iff] at h
    rcases h with hlater | ⟨-, hfirst⟩
    · exact List.mem_cons_of_mem word (ih hlater)
    · by_cases hkey : word.1 = k
      · simp [hkey] at hfirst
        simp [← hkey, ← hfirst]
      · simp [hkey] at hfirst

/-- Where every field is written once at most, its word is the last. -/
theorem lastWord_filterMap {those : List κ} {word : κ → Option ω} (hnodup : those.Nodup) {k : κ} (hk : k ∈ those) :
    lastWord (those.filterMap fun k => (word k).map (Prod.mk k)) k = word k := by
  induction those with
  | nil => simp at hk
  | cons first those ih =>
    have hfirst : first ∉ those := (List.nodup_cons.mp hnodup).1
    have hothers : first = k → lastWord (those.filterMap fun k => (word k).map (Prod.mk k)) k = none := by
      rintro rfl
      apply lastWord_eq_none
      intro entry hentry heq
      simp only [List.mem_filterMap, Option.map_eq_some_iff] at hentry
      obtain ⟨other, hother, text, -, rfl⟩ := hentry
      exact hfirst (heq ▸ hother)
    have hsplit : (first :: those).filterMap (fun k => (word k).map (Prod.mk k)) =
        ((word first).map (Prod.mk first)).toList ++ those.filterMap fun k => (word k).map (Prod.mk k) := by
      cases hword : word first <;> simp [hword]
    rw [hsplit, lastWord_append]
    by_cases hkey : first = k
    · rw [hothers hkey]
      cases hword : word first <;> simp [lastWord, ← hkey, hword]
    · have hthere : k ∈ those := (List.mem_cons.mp hk).resolve_left (Ne.symm hkey)
      rw [ih (List.nodup_cons.mp hnodup).2 hthere]
      cases word first <;> simp [lastWord, hkey]

section
variable {read : (k : κ) → ω → Option (α k)} {store store' : (k : κ) → α k}

/-- A word settles its own field, and leaves to the others what they are settled by. -/
theorem settled_cons {word : κ × ω} {value : α word.1} (hvalue : read word.1 word.2 = some value) (words : List (κ × ω))
    (hread : ∀ later ∈ words, (read later.1 later.2).isSome) :
    settled read (Function.update store word.1 value) (lastWord words) =
      settled read store (lastWord (word :: words)) := by
  funext k
  rw [settled, settled, lastWord]
  cases hlast : lastWord words k with
  | some text =>
    obtain ⟨found, hfound⟩ := Option.isSome_iff_exists.mp (hread (k, text) (mem_of_lastWord hlast))
    simp [hfound]
  | none =>
    by_cases hkey : word.1 = k
    · subst hkey
      simp [hvalue]
    · simp [hkey, Function.update_of_ne (Ne.symm hkey)]

/-- The words are written when every one can be read, and the last of each field is what it holds. -/
theorem writeAll_eq_some {words : List (κ × ω)} :
    writeAll read store words = some store' ↔
      (∀ word ∈ words, (read word.1 word.2).isSome) ∧ store' = settled read store (lastWord words) := by
  induction words generalizing store with
  | nil =>
    have hempty : settled read store (lastWord ([] : List (κ × ω))) = store := by
      funext k
      simp [settled]
    simp only [writeAll, hempty, List.foldlM_nil, List.not_mem_nil, false_implies, implies_true, true_and]
    exact Option.some_inj.trans eq_comm
  | cons word words ih =>
    have hfold : writeAll read store (word :: words) =
        (write read store word).bind fun next => writeAll read next words := List.foldlM_cons
    rw [hfold]
    cases hvalue : read word.1 word.2 with
    | none => simp [write, hvalue]
    | some value =>
      simp only [write, hvalue, Option.map_some, Option.bind_some, ih, List.forall_mem_cons, Option.isSome_some, true_and]
      constructor
      · rintro ⟨hread, hstore⟩
        rw [settled_cons hvalue words hread] at hstore
        exact ⟨hread, hstore⟩
      · rintro ⟨hread, hstore⟩
        rw [← settled_cons hvalue words hread] at hstore
        exact ⟨hread, hstore⟩

end

end NorelecBot.Lib.Store
