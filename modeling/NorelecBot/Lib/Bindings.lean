import NorelecBot.Lib.OrderedMap
import Mathlib.Logic.Relation

/-! # Owners bound to members, two of which may be merged

A map binds every member to an owner. Merging redirects the members of one owner
to another. Two members of one owner are then joined by a chain of the links that
made the merges, and what no owner has twice before no owner has twice after.
-/

namespace NorelecBot.Lib

variable {α β γ : Type} [DecidableEq α]

def redirect [DecidableEq β] (old new owner : β) : β := if owner = old then new else owner

/-- Only the members of the two owners that are merged come together. -/
theorem redirect_eq [DecidableEq β] {old new owner other : β} (h : redirect old new owner = redirect old new other) :
    owner = other ∨ (owner = old ∧ other = new) ∨ (owner = new ∧ other = old) := by
  simp only [redirect] at h
  split at h <;> split at h <;> simp_all

theorem redirect_cases [DecidableEq β] (old new owner : β) :
    redirect old new owner = owner ∨ (owner = old ∧ redirect old new owner = new) := by
  rw [redirect]
  split
  · rename_i hold
    exact Or.inr ⟨hold, rfl⟩
  · exact Or.inl rfl

/-- What is bound after a merge was bound before. -/
theorem find_redirect [DecidableEq β] {bindings : OrderedMap α β} {old new : β} {member : α} {owner : β}
    (h : (bindings.mapVals (redirect old new)).find member = some owner) :
    ∃ before, bindings.find member = some before ∧ redirect old new before = owner := by
  rw [OrderedMap.find_mapVals] at h
  exact Option.map_eq_some_iff.mp h

/-- Two members of one owner are joined by a chain of links. -/
def Chained (bindings : OrderedMap α β) (links : α → α → Prop) : Prop :=
  ∀ a b owner, bindings.find a = some owner → bindings.find b = some owner → Relation.EqvGen links a b

namespace Chained
variable {bindings : OrderedMap α β} {links links' : α → α → Prop}

theorem mono (h : Chained bindings links) (hlinks : ∀ a b, links a b → links' a b) : Chained bindings links' :=
  fun a b owner ha hb => (h a b owner ha hb).mono hlinks

/-- A new member is bound to an owner nobody is bound to. -/
theorem set (h : Chained bindings links) {member : α} {owner : β} (hfree : ∀ other, bindings.find other ≠ some owner) :
    Chained (bindings.set member owner) links := by
  intro a b common ha hb
  rw [OrderedMap.find_set] at ha hb
  split at ha
  · rename_i hmember
    split at hb
    · rename_i hmember'
      rw [hmember, hmember']
      exact .refl member
    · cases ha
      exact absurd hb (hfree b)
  · split at hb
    · cases hb
      exact absurd ha (hfree a)
    · exact h a b common ha hb

/-- Linking a member of one owner to a member of the other joins all of both. -/
theorem redirect [DecidableEq β] (h : Chained bindings links) {old new : β} {mine theirs : α} (hmine : bindings.find mine = some old)
    (htheirs : bindings.find theirs = some new) (hlinks : ∀ a b, links a b → links' a b)
    (hlink : Relation.EqvGen links' mine theirs) : Chained (bindings.mapVals (redirect old new)) links' := by
  have hbefore := h.mono hlinks
  intro a b owner ha hb
  obtain ⟨first, hfirst, hfirst'⟩ := find_redirect ha
  obtain ⟨second, hsecond, hsecond'⟩ := find_redirect hb
  rcases redirect_eq (hfirst'.trans hsecond'.symm) with rfl | ⟨rfl, rfl⟩ | ⟨rfl, rfl⟩
  · exact hbefore a b first hfirst hsecond
  · exact ((hbefore a mine first hfirst hmine).trans _ _ _ hlink).trans _ _ _ (hbefore theirs b second htheirs hsecond)
  · exact ((hbefore a theirs first hfirst htheirs).trans _ _ _ (hlink.symm _ _)).trans _ _ _
      (hbefore mine b second hmine hsecond)

end Chained

def OneEach (kind : α → γ) (bindings : OrderedMap α β) : Prop :=
  ∀ a b owner, bindings.find a = some owner → bindings.find b = some owner → kind a = kind b → a = b

namespace OneEach
variable {kind : α → γ} {bindings : OrderedMap α β}

theorem empty : OneEach kind (OrderedMap.empty : OrderedMap α β) := by
  intro a b owner ha
  cases ha

theorem set (h : OneEach kind bindings) {member : α} {owner : β} (hfree : ∀ other, bindings.find other ≠ some owner) :
    OneEach kind (bindings.set member owner) := by
  intro a b common ha hb hkind
  rw [OrderedMap.find_set] at ha hb
  split at ha
  · rename_i hmember
    split at hb
    · rename_i hmember'
      rw [hmember, hmember']
    · cases ha
      exact absurd hb (hfree b)
  · split at hb
    · cases hb
      exact absurd ha (hfree a)
    · exact h a b common ha hb hkind

theorem filter (h : OneEach kind bindings) (keep : α → β → Bool) : OneEach kind (bindings.filter keep) := by
  intro a b owner ha hb
  rw [OrderedMap.find_filter] at ha hb
  exact h a b owner (Option.eq_some_of_filter_eq_some ha) (Option.eq_some_of_filter_eq_some hb)

/-- Two owners who have nothing of one kind between them may be merged. -/
theorem redirect [DecidableEq β] (h : OneEach kind bindings) {old new : β}
    (hapart : ∀ a b, bindings.find a = some old → bindings.find b = some new → kind a ≠ kind b) :
    OneEach kind (bindings.mapVals (redirect old new)) := by
  intro a b owner ha hb hkind
  obtain ⟨first, hfirst, hfirst'⟩ := find_redirect ha
  obtain ⟨second, hsecond, hsecond'⟩ := find_redirect hb
  rcases redirect_eq (hfirst'.trans hsecond'.symm) with rfl | ⟨rfl, rfl⟩ | ⟨rfl, rfl⟩
  · exact h a b first hfirst hsecond hkind
  · exact absurd hkind (hapart a b hfirst hsecond)
  · exact absurd hkind.symm (hapart b a hsecond hfirst)

end OneEach

def Backed (names : OrderedMap α β) (bindings : OrderedMap α β) (kind : α → Prop) : Prop :=
  ∀ name owner, names.find name = some owner → ∃ member, bindings.find member = some owner ∧ kind member

namespace Backed
variable {names bindings : OrderedMap α β} {kind : α → Prop}

theorem empty : Backed (OrderedMap.empty : OrderedMap α β) bindings kind := by
  intro name owner hname
  cases hname

theorem filter (h : Backed names bindings kind) (keep : α → β → Bool) : Backed (names.filter keep) bindings kind := by
  intro name owner hname
  rw [OrderedMap.find_filter] at hname
  exact h name owner (Option.eq_some_of_filter_eq_some hname)

theorem set (h : Backed names bindings kind) (name : α) {member : α} {owner : β}
    (hmember : bindings.find member = some owner) (hkind : kind member) : Backed (names.set name owner) bindings kind := by
  intro other common hother
  rw [OrderedMap.find_set] at hother
  split at hother
  · cases hother
    exact ⟨member, hmember, hkind⟩
  · exact h other common hother

/-- A member who was bound to nobody is bound now. -/
theorem bind (h : Backed names bindings kind) {member : α} (hnew : bindings.find member = none) (owner : β) :
    Backed names (bindings.set member owner) kind := by
  intro name common hname
  obtain ⟨other, hother, hkind⟩ := h name common hname
  refine ⟨other, ?_, hkind⟩
  rw [OrderedMap.find_set, if_neg]
  · exact hother
  · rintro rfl
    rw [hnew] at hother
    cases hother

theorem redirect [DecidableEq β] (h : Backed names bindings kind) (old new : β) :
    Backed (names.mapVals (redirect old new)) (bindings.mapVals (Lib.redirect old new)) kind := by
  intro name owner hname
  obtain ⟨before, hbefore, rfl⟩ := find_redirect hname
  obtain ⟨member, hmember, hkind⟩ := h name before hbefore
  refine ⟨member, ?_, hkind⟩
  rw [OrderedMap.find_mapVals, hmember]
  rfl

end Backed

end NorelecBot.Lib
