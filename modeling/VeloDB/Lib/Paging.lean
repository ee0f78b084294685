import Mathlib.Data.List.Lex
import Mathlib.Order.WithBot

/-!
# Paging through a changing set

A reader goes through a linearly ordered set page by page and remembers only the last element it
was shown. Between two pages the set may change in any way. Whatever it does, no element is shown
twice, and an element that is there at every page is shown.

The place the reader has come to is an element of `WithBot α`: it begins at `⊥`.

## Main results

* `Pages.nodup` — nothing is shown twice
* `Pages.complete` — what stays is shown
* `Reads.ascending`, `Reads.mem_of_passed` — the same for a list in order that is read from the
  front, and for what stays until the reader has passed it
-/

namespace Paging

variable {α : Type} [LinearOrder α]

/-- The elements shown between two places; there is no upper place on the last page. -/
structure IsPage (present : α → Prop) (lo : WithBot α) (hi : Option α) (items : List α) : Prop where
  above : ∀ x ∈ items, lo < x
  below : ∀ h ∈ hi, ∀ x ∈ items, x ≤ h
  nodup : items.Nodup
  complete : ∀ x, present x → lo < x → (∀ h ∈ hi, x ≤ h) → x ∈ items
  advances : ∀ h ∈ hi, lo < h

/-- The pages from a place to the end, and what is present at each of them. -/
inductive Pages : WithBot α → List (α → Prop) → List (List α) → Prop
  | last {present : α → Prop} {lo : WithBot α} {items : List α} (h : IsPage present lo none items) :
    Pages lo [present] [items]
  | next {present : α → Prop} {lo : WithBot α} {hi : α} {items : List α}
    {rest : List (α → Prop)} {pages : List (List α)} (h : IsPage present lo (some hi) items)
    (hrest : Pages hi rest pages) : Pages lo (present :: rest) (items :: pages)

namespace Pages

variable {lo : WithBot α} {presents : List (α → Prop)} {pages : List (List α)}

theorem above (h : Pages lo presents pages) : ∀ x ∈ pages.flatten, lo < x := by
  induction h with
  | last h =>
    rw [List.flatten_singleton]
    exact h.above
  | @next present lo hi items rest pages h hrest ih =>
    intro x hx
    rw [List.flatten_cons, List.mem_append] at hx
    rcases hx with hx | hx
    · exact h.above x hx
    · exact (h.advances hi rfl).trans (ih x hx)

/-- **Nothing is shown twice.** -/
theorem nodup (h : Pages lo presents pages) : pages.flatten.Nodup := by
  induction h with
  | last h =>
    rw [List.flatten_singleton]
    exact h.nodup
  | @next present lo hi items rest pages h hrest ih =>
    rw [List.flatten_cons, List.nodup_append]
    refine ⟨h.nodup, ih, fun x hx y hy heq => ?_⟩
    have hlt : hi < y := WithBot.coe_lt_coe.mp (hrest.above y hy)
    exact absurd (heq ▸ h.below hi rfl x hx) (not_le.mpr hlt)

/-- **What stays is shown.** An element behind the place is either on this page or behind it. -/
theorem complete (h : Pages lo presents pages) {x : α} (hx : ∀ present ∈ presents, present x)
    (hlo : lo < x) : x ∈ pages.flatten := by
  induction h with
  | last h =>
    rw [List.flatten_singleton]
    exact h.complete x (hx _ List.mem_cons_self) hlo fun h hh => nomatch hh
  | @next present lo hi items rest pages h hrest ih =>
    rw [List.flatten_cons, List.mem_append]
    by_cases hle : x ≤ hi
    · left
      refine h.complete x (hx _ List.mem_cons_self) hlo fun h hh => ?_
      obtain rfl := Option.some.inj hh
      exact hle
    · right
      exact ih (fun p hp => hx p (List.mem_cons_of_mem _ hp))
        (WithBot.coe_lt_coe.mpr (not_le.mp hle))

end Pages

/-! ### Cutting a page from a sorted list -/

/-- A beginning of a list in strict order has the elements up to its last one. -/
theorem mem_take_iff {l : List α} (hl : l.Pairwise (· < ·)) {n : ℕ} {last : α}
    (hlast : (l.take n).getLast? = some last) {x : α} (hx : x ∈ l) :
    x ∈ l.take n ↔ x ≤ last := by
  have hmem := List.mem_of_getLast? hlast
  have hsplit : l.take n ++ l.drop n = l := List.take_append_drop n l
  constructor
  · intro hxt
    obtain ⟨front, hfront⟩ := List.getLast?_eq_some_iff.mp hlast
    have hpw : (l.take n).Pairwise (· < ·) := hl.sublist (List.take_sublist n l)
    rw [hfront] at hpw hxt
    rcases List.mem_append.mp hxt with hxf | hxl
    · exact ((List.pairwise_append.mp hpw).2.2 x hxf last List.mem_cons_self).le
    · exact (List.mem_singleton.mp hxl).le
  · intro hle
    rw [← hsplit] at hx hl
    rcases List.mem_append.mp hx with hxt | hxd
    · exact hxt
    · have hlt := (List.pairwise_append.mp hl).2.2 last hmem x hxd
      exact absurd hle (not_le.mpr hlt)

/-! ### A list that is read from the front -/

section Reads

variable {β : Type} (rank : β → α)

/-- Where a reader stands who has begun at `start` and has been shown these. -/
def placeAfter (start : α) (shown : List β) : α := (shown.getLast?.map rank).getD start

omit [LinearOrder α] in
theorem placeAfter_append (start : α) (shown more : List β) :
    placeAfter rank start (shown ++ more) = placeAfter rank (placeAfter rank start shown) more := by
  rw [placeAfter, placeAfter, placeAfter, List.getLast?_append]
  cases more.getLast? <;> rfl

/-- The pages of a list that changes between them: each is a beginning of what is behind the place
of the reader. -/
inductive Reads : α → List (List β) → List (List β) → Prop
  | nil (start : α) : Reads start [] []
  | cons {start : α} {l page : List β} {ls pages : List (List β)}
    (h : page <+: l.filter fun x => start < rank x)
    (hrest : Reads (placeAfter rank start page) ls pages) : Reads start (l :: ls) (page :: pages)

variable {rank} {start : α} {l page : List β}

theorem lt_of_mem_page (h : page <+: l.filter fun x => start < rank x) {x : β} (hx : x ∈ page) :
    start < rank x := by
  have hmem := h.subset hx
  exact of_decide_eq_true (List.mem_filter.mp hmem).2

/-- The place behind a page. -/
theorem le_placeAfter (hpage : page.Pairwise fun a b => rank a < rank b) {x : β} (hx : x ∈ page) :
    rank x ≤ placeAfter rank start page := by
  have hlast := List.getLast?_eq_some_getLast (List.ne_nil_of_mem hx)
  generalize page.getLast (List.ne_nil_of_mem hx) = last at hlast
  rw [placeAfter, hlast]
  obtain ⟨init, rfl⟩ := List.getLast?_eq_some_iff.mp hlast
  rcases List.mem_append.mp hx with hx | hx
  · exact ((List.pairwise_append.mp hpage).2.2 x hx last List.mem_cons_self).le
  · rw [List.mem_singleton.mp hx]
    exact le_rfl

theorem start_le_placeAfter (h : page <+: l.filter fun x => start < rank x) :
    start ≤ placeAfter rank start page := by
  rw [placeAfter]
  cases hlast : page.getLast? with
  | none => exact le_rfl
  | some last => exact (lt_of_mem_page h (List.mem_of_getLast? hlast)).le

/-- What a page leaves out is behind it. -/
theorem mem_page_of_le (hl : l.Pairwise fun a b => rank a < rank b)
    (h : page <+: l.filter fun x => start < rank x) {x : β} (hx : x ∈ l) (hstart : start < rank x)
    (hle : rank x ≤ placeAfter rank start page) : x ∈ page := by
  obtain ⟨rest, hrest⟩ := h
  have hmem : x ∈ page ++ rest := by
    rw [hrest]
    exact List.mem_filter.mpr ⟨hx, decide_eq_true hstart⟩
  have hsorted : (page ++ rest).Pairwise fun a b => rank a < rank b := by
    rw [hrest]
    exact hl.sublist List.filter_sublist
  refine (List.mem_append.mp hmem).resolve_right fun hbehind => ?_
  rw [placeAfter] at hle
  cases hlast : page.getLast? with
  | none =>
    rw [hlast] at hle
    exact absurd hle (not_le.mpr hstart)
  | some last =>
    rw [hlast] at hle
    have hlt := (List.pairwise_append.mp hsorted).2.2 last (List.mem_of_getLast? hlast) x hbehind
    exact absurd hle (not_le.mpr hlt)

/-- A page with everything behind a place goes past all of the list. -/
theorem le_placeAfter_of_whole (hl : l.Pairwise fun a b => rank a < rank b)
    (h : page = l.filter fun x => start < rank x) {x : β} (hx : x ∈ l) :
    rank x ≤ placeAfter rank start page := by
  have hprefix : page <+: l.filter fun x => start < rank x := ⟨[], by rw [List.append_nil, h]⟩
  rcases le_or_gt (rank x) start with hle | hlt
  · exact hle.trans (start_le_placeAfter hprefix)
  · refine le_placeAfter ?_ ?_
    · rw [h]
      exact hl.sublist List.filter_sublist
    · rw [h]
      exact List.mem_filter.mpr ⟨hx, decide_eq_true hlt⟩

variable {ls pages : List (List β)}

/-- **In order, and each once.** -/
theorem Reads.ascending (h : Reads rank start ls pages)
    (hls : ∀ l ∈ ls, l.Pairwise fun a b => rank a < rank b) :
    pages.flatten.Pairwise (fun a b => rank a < rank b) ∧ ∀ x ∈ pages.flatten, start < rank x := by
  induction h with
  | nil start => exact ⟨List.Pairwise.nil, fun _ h => absurd h List.not_mem_nil⟩
  | @cons start l page ls pages h hrest ih =>
    obtain ⟨hrestAsc, hrestAfter⟩ := ih fun l hl => hls l (List.mem_cons_of_mem _ hl)
    have hpage : page.Pairwise fun a b => rank a < rank b :=
      (hls l List.mem_cons_self).sublist (h.sublist.trans List.filter_sublist)
    rw [List.flatten_cons]
    refine ⟨List.pairwise_append.mpr ⟨hpage, hrestAsc, fun a ha b hb => ?_⟩, fun x hx => ?_⟩
    · exact (le_placeAfter hpage ha).trans_lt (hrestAfter b hb)
    · rcases List.mem_append.mp hx with hx | hx
      · exact lt_of_mem_page h hx
      · exact (start_le_placeAfter h).trans_lt (hrestAfter x hx)

/-- **What is there until it is passed is shown.** -/
theorem Reads.mem_of_passed (h : Reads rank start ls pages)
    (hls : ∀ l ∈ ls, l.Pairwise fun a b => rank a < rank b) {x : β} (hx : start < rank x)
    (hpassed : rank x ≤ placeAfter rank start pages.flatten)
    (hstays : ∀ j l, ls[j]? = some l →
      placeAfter rank start (pages.take j).flatten < rank x → x ∈ l) : x ∈ pages.flatten := by
  induction h with
  | nil start => exact absurd hpassed (not_le.mpr hx)
  | @cons start l page ls pages h hrest ih =>
    rw [List.flatten_cons, placeAfter_append] at hpassed
    rw [List.flatten_cons, List.mem_append]
    rcases le_or_gt (rank x) (placeAfter rank start page) with hle | hlt
    · exact Or.inl (mem_page_of_le (hls l List.mem_cons_self) h (hstays 0 l rfl hx) hx hle)
    · refine Or.inr (ih (fun l hl => hls l (List.mem_cons_of_mem _ hl)) hlt hpassed ?_)
      intro j l' hl' hplace
      refine hstays (j + 1) l' hl' ?_
      rwa [List.take_succ_cons, List.flatten_cons, placeAfter_append]

end Reads

end Paging
