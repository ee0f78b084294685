import VeloDB.Cmd.Server

/-!
# Hash tags

A client that wants two keys on one node writes the same tag into both, between the first brace
that opens and the first that closes after it. `extractHashtag` cuts the key at those two bytes;
the source computes their positions and takes a slice, and `hashtagSlice` is that computation with
its arithmetic. The two agree on every key, so what holds of the cuts holds of the positions.

## Main results

* `extractHashtag_eq_slice` — the positions
* `slotForKey_hashtag` — tagged keys, and keys without a tag
-/

namespace VeloDB

open Rust

namespace Cmd

/-- `extract_hashtag`, by positions: `position`, `skip` and a slice. -/
def hashtagSlice (key : Bytes) : Bytes :=
  match key.findIdx? (· == 123) with
  | some start =>
    match (key.drop (start + 1)).findIdx? (· == 125) with
    | some stop =>
      let inner := (key.drop (start + 1)).take (start + 1 + stop - (start + 1))
      if inner.isEmpty then key else inner
    | none => key
  | none => key

/-! ### Cutting at a first occurrence -/

section Cut

variable {b : UInt8} {p : Bytes} (hp : b ∉ p) (s : Bytes)
include hp

theorem ne_of_mem_cut : ∀ c ∈ p, (c != b) = true := by
  intro c hc
  rw [bne_iff_ne]
  rintro rfl
  exact hp hc

theorem dropWhile_cut : (p ++ b :: s).dropWhile (· != b) = b :: s := by
  rw [List.dropWhile_append_of_pos (ne_of_mem_cut hp), List.dropWhile_cons_of_neg (by simp)]

theorem takeWhile_cut : (p ++ b :: s).takeWhile (· != b) = p := by
  rw [List.takeWhile_append_of_pos (ne_of_mem_cut hp), List.takeWhile_cons_of_neg (by simp),
    List.append_nil]

theorem findIdx?_cut : (p ++ b :: s).findIdx? (· == b) = some p.length := by
  have hnone : p.findIdx? (· == b) = none := by
    rw [List.findIdx?_eq_none_iff]
    exact fun c hc => beq_eq_false_iff_ne.mpr (bne_iff_ne.mp (ne_of_mem_cut hp c hc))
  rw [List.findIdx?_append, hnone, List.findIdx?_cons]
  simp

end Cut

/-- What follows the first opening brace. -/
theorem drop_cut (b : UInt8) (p s : Bytes) : (p ++ b :: s).drop (p.length + 1) = s := by
  rw [← List.drop_drop, List.drop_left, List.drop_one, List.tail_cons]

/-! ### The tag -/

section Tag

variable {p t s : Bytes} (hp : 123 ∉ p)
include hp

/-- A key cut at its first opening brace and at the first closing one behind it. -/
theorem extractHashtag_cut (ht : 125 ∉ t) : extractHashtag (p ++ 123 :: (t ++ 125 :: s))
    = if t = [] then p ++ 123 :: (t ++ 125 :: s) else t := by
  rw [extractHashtag, if_pos (by simp), dropWhile_cut hp, List.drop_one, List.tail_cons]
  dsimp only
  rw [if_pos (by simp), takeWhile_cut ht]

/-- An opening brace that is never closed. -/
theorem extractHashtag_open (hs : 125 ∉ s) : extractHashtag (p ++ 123 :: s) = p ++ 123 :: s := by
  rw [extractHashtag, if_pos (by simp), dropWhile_cut hp, List.drop_one, List.tail_cons]
  exact if_neg hs

theorem hashtagSlice_cut (ht : 125 ∉ t) : hashtagSlice (p ++ 123 :: (t ++ 125 :: s))
    = if t = [] then p ++ 123 :: (t ++ 125 :: s) else t := by
  have hlen : p.length + 1 + t.length - (p.length + 1) = t.length := Nat.add_sub_cancel_left _ _
  rw [hashtagSlice, findIdx?_cut hp]
  dsimp only
  rw [drop_cut, findIdx?_cut ht]
  dsimp only
  rw [hlen, List.take_left]
  simp only [List.isEmpty_iff]

theorem hashtagSlice_open (hs : 125 ∉ s) : hashtagSlice (p ++ 123 :: s) = p ++ 123 :: s := by
  have hnone : s.findIdx? (· == 125) = none := by
    rw [List.findIdx?_eq_none_iff]
    exact fun c hc => beq_eq_false_iff_ne.mpr fun h => hs (h ▸ hc)
  rw [hashtagSlice, findIdx?_cut hp]
  dsimp only
  rw [drop_cut, hnone]

end Tag

theorem extractHashtag_plain {key : Bytes} (h : 123 ∉ key) : extractHashtag key = key := if_neg h

theorem hashtagSlice_plain {key : Bytes} (h : 123 ∉ key) : hashtagSlice key = key := by
  have hnone : key.findIdx? (· == 123) = none := by
    rw [List.findIdx?_eq_none_iff]
    exact fun c hc => beq_eq_false_iff_ne.mpr fun hb => h (hb ▸ hc)
  rw [hashtagSlice, hnone]

/-- **The positions of the source cut where the model does.** -/
theorem extractHashtag_eq_slice (key : Bytes) : extractHashtag key = hashtagSlice key := by
  by_cases hopen : 123 ∈ key
  · obtain ⟨p, s, rfl, hp⟩ := List.eq_append_cons_of_mem hopen
    by_cases hclose : 125 ∈ s
    · obtain ⟨t, s, rfl, ht⟩ := List.eq_append_cons_of_mem hclose
      rw [extractHashtag_cut hp ht, hashtagSlice_cut hp ht]
    · rw [extractHashtag_open hp hclose, hashtagSlice_open hp hclose]
  · rw [extractHashtag_plain hopen, hashtagSlice_plain hopen]

/-! ### The slot -/

/-- **Hash tags decide the slot.** A key with a tag is in the slot of the tag, whatever stands
around it; a key without one is in the slot of its own checksum. -/
theorem slotForKey_hashtag (H : Host) :
    (∀ p t s : Bytes, 123 ∉ p → t ≠ [] → 125 ∉ t →
      slotForKey H (p ++ [123] ++ t ++ [125] ++ s) = slotForKey H t) ∧
    ∀ key : Bytes, (123 ∉ key ∨ (∃ p s, 123 ∉ p ∧ 125 ∉ s ∧ key = p ++ [123] ++ s) ∨
        ∃ p s, 123 ∉ p ∧ key = p ++ [123] ++ [125] ++ s) →
      slotForKey H key = (H.crc16 key).toNat % slotCount := by
  have hwhole : ∀ {key : Bytes}, extractHashtag key = key →
      slotForKey H key = (H.crc16 key).toNat % slotCount := fun h => by rw [slotForKey, h]
  constructor
  · intro p t s hp ht hclose
    have htag : extractHashtag (p ++ [123] ++ t ++ [125] ++ s) = t := by
      simpa [ht] using extractHashtag_cut (s := s) hp hclose
    -- the tag itself may open a brace, but never closes one
    have hself : extractHashtag t = t := by
      by_cases hopen : 123 ∈ t
      · obtain ⟨q, r, rfl, hq⟩ := List.eq_append_cons_of_mem hopen
        exact extractHashtag_open hq fun hr => hclose (by simp [hr])
      · exact extractHashtag_plain hopen
    rw [slotForKey, slotForKey, htag, hself]
  · rintro key (hopen | ⟨p, s, hp, hs, rfl⟩ | ⟨p, s, hp, rfl⟩)
    · exact hwhole (extractHashtag_plain hopen)
    · refine hwhole ?_
      simpa using extractHashtag_open hp hs
    · refine hwhole ?_
      simpa using extractHashtag_cut (t := []) (s := s) hp List.not_mem_nil

/-- CRC16/XMODEM: polynomial `0x1021`, no reflection, starting from zero. -/
def crc16Xmodem (b : Bytes) : UInt16 :=
  b.foldl (fun crc c => (List.range 8).foldl (fun crc _ =>
    if crc &&& 0x8000 = 0 then crc <<< (1 : UInt16) else (crc <<< (1 : UInt16)) ^^^ 0x1021)
      (crc ^^^ (c.toUInt16 <<< (8 : UInt16)))) 0

/-- Two keys of one user, on one node. -/
theorem slotForKey_hashtag_user :
    slotForKey { Host.plain with crc16 := crc16Xmodem } (asBytes "user:{100}:name")
      = slotForKey { Host.plain with crc16 := crc16Xmodem } (asBytes "100") :=
  (slotForKey_hashtag { Host.plain with crc16 := crc16Xmodem }).1 (asBytes "user:") (asBytes "100")
    (asBytes ":name") (by decide) (by decide) (by decide)

end Cmd

end VeloDB
