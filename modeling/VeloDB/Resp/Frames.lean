import VeloDB.Resp.Serializer

/-!
# One reply, one frame

Simple strings and errors are framed by the end of their line, with nothing escaped, and a reader
ends the line at the first carriage return. `OneFrame` says that a reader of a serialized reply gets
the reply back and stops at its last byte. For replies whose texts have no carriage return this is
the round trip; a text that has one is never read back, because no text that is read has one.

## Main results

* `oneFrame_iff` — the replies that are read back
* `respValue_error_ne` — a broken error line is not even read as some other single value
-/

namespace VeloDB

open Rust Nom

/-- A reader of the serialized reply gets the reply, as RESP2 shows it, and nothing is left over. -/
def OneFrame (H : Host) (v : RespValue) : Prop :=
  respValue (serializeResponse H v) = .ok ([], degrade H v)

theorem noCRItems_iff {vs : List RespValue} : NoCRItems vs ↔ ∀ v ∈ vs, NoCR v := by
  induction vs with
  | nil => simp [NoCRItems]
  | cons v vs ih => rw [NoCRItems, ih, List.forall_mem_cons]

/-! ### What a reader reads -/

theorem yields_textLine (t : UInt8) (mk : String → RespValue)
    (hmk : ∀ s, '\r' ∉ s.toList → NoCR (mk s)) : Yields NoCR (textLine t mk) := by
  intro i r v h
  obtain ⟨⟨i₁, _⟩, -, h⟩ := bind_eq_ok.mp h
  obtain ⟨⟨i₂, bytes⟩, hline, h⟩ := bind_eq_ok.mp h
  obtain ⟨-, rfl⟩ := Prod.mk.inj (Except.ok.inj h)
  obtain ⟨⟨i₃, bytes'⟩, htake, hline⟩ := bind_eq_ok.mp hline
  obtain ⟨_, -, hline⟩ := bind_eq_ok.mp hline
  obtain ⟨-, rfl⟩ := Prod.mk.inj (Except.ok.inj hline)
  rw [takeWhileMN, if_neg (Nat.not_lt_zero _)] at htake
  obtain ⟨-, rfl⟩ := Prod.mk.inj (Except.ok.inj htake)
  refine hmk _ fun hmem => ?_
  rw [fromUtf8Lossy, String.toList_ofList] at hmem
  have hcr : (13 : UInt8) ∈ i₁.takeWhile (· != 13) := by
    have hbyte := mem_of_mem_lossyChars (c := '\r') (by decide) hmem
    have htake : i₁.take (min (i₁.takeWhile (· != 13)).length usizeMax)
        <+: i₁.takeWhile (· != 13) := by
      have hall : i₁.takeWhile (· != 13) = i₁.take (i₁.takeWhile (· != 13)).length :=
        (List.prefix_iff_eq_take.mp (List.takeWhile_prefix _))
      rw [hall, List.length_take]
      exact List.take_prefix_take_left (by omega)
    exact htake.subset hbyte
  simpa using List.mem_takeWhile_imp hcr

theorem yields_bulkBody (len : Int64) : Yields NoCR (bulkBody len) := by
  intro i r v h
  rw [bulkBody] at h
  split_ifs at h
  · obtain ⟨-, rfl⟩ := Prod.mk.inj (Except.ok.inj h)
    trivial
  · obtain ⟨_, -, h⟩ := bind_eq_ok.mp h
    obtain ⟨-, rfl⟩ := Prod.mk.inj (Except.ok.inj h)
    trivial

theorem yields_arrayBody {item : Parser RespValue} (hitem : Yields NoCR item) (len : Int64) :
    Yields NoCR (arrayBody item len) := by
  intro i r v h
  rw [arrayBody] at h
  split_ifs at h
  · obtain ⟨-, rfl⟩ := Prod.mk.inj (Except.ok.inj h)
    trivial
  · obtain ⟨⟨_, items⟩, hitems, h⟩ := bind_eq_ok.mp h
    obtain ⟨-, rfl⟩ := Prod.mk.inj (Except.ok.inj h)
    exact noCRItems_iff.mpr (yields_manyMN hitem _ _ hitems)

theorem yields_respLevel {item : Parser RespValue} (hitem : Yields NoCR item) :
    Yields NoCR (respLevel item) := by
  have hsimple : Yields NoCR simpleString :=
    yields_textLine 43 .simpleString fun _ hcr => hcr
  have herror : Yields NoCR parseError := yields_textLine 45 .error fun _ hcr => hcr
  have hinteger : Yields NoCR integer := by
    intro i r v h
    obtain ⟨_, -, h⟩ := bind_eq_ok.mp h
    obtain ⟨_, -, h⟩ := bind_eq_ok.mp h
    obtain ⟨-, rfl⟩ := Prod.mk.inj (Except.ok.inj h)
    trivial
  have hbulk : Yields NoCR bulkString := by
    intro i r v h
    obtain ⟨_, -, h⟩ := bind_eq_ok.mp h
    obtain ⟨_, -, h⟩ := bind_eq_ok.mp h
    exact yields_bulkBody _ h
  have harray : Yields NoCR (array item) := by
    intro i r v h
    obtain ⟨_, -, h⟩ := bind_eq_ok.mp h
    obtain ⟨_, -, h⟩ := bind_eq_ok.mp h
    exact yields_arrayBody hitem _ h
  intro i r v h
  refine yields_alt (Q := NoCR) (fun p hp => ?_) h
  obtain ⟨q, hq, rfl⟩ := List.mem_map.mp hp
  exact forall_mem_respBranches (P := fun q => Yields NoCR q.2) hsimple herror hinteger hbulk
    harray q hq

theorem yields_respValue : Yields NoCR respValue := by
  have hdepth : ∀ fuel, Yields NoCR (respValueDepth fuel) := by
    intro fuel
    induction fuel with
    | zero => intro i r v h; cases h
    | succ fuel ih => exact yields_respLevel ih
  intro i r v h
  exact hdepth _ h

mutual

theorem noCR_of_degrade (H : Host) : ∀ v : RespValue, NoCR (degrade H v) → NoCR v
  | .simpleString _, h => h
  | .error _, h => h
  | .array (some items), h => noCRItems_of_degrade H items h
  | .map pairs, h => noCRPairs_of_degrade H pairs h
  | .integer _, _ => trivial
  | .bulkString _, _ => trivial
  | .array none, _ => trivial
  | .double _, _ => trivial
  | .boolean _, _ => trivial
  | .null, _ => trivial

theorem noCRItems_of_degrade (H : Host) :
    ∀ vs : List RespValue, NoCRItems (degradeItems H vs) → NoCRItems vs
  | [], _ => trivial
  | v :: vs, h => ⟨noCR_of_degrade H v h.1, noCRItems_of_degrade H vs h.2⟩

theorem noCRPairs_of_degrade (H : Host) :
    ∀ ps : List (RespValue × RespValue), NoCRItems (degradePairs H ps) → NoCRPairs ps
  | [], _ => trivial
  | (k, v) :: ps, h => ⟨noCR_of_degrade H k h.1, noCR_of_degrade H v h.2.1,
      noCRPairs_of_degrade H ps h.2.2⟩

end

/-- **The replies that are read back** are those without a carriage return in a text. -/
theorem oneFrame_iff {H : Host} {v : RespValue} (hlen : (serializeResponse H v).length < 2 ^ 63) :
    OneFrame H v ↔ NoCR v := by
  constructor
  · exact fun h => noCR_of_degrade H v (yields_respValue h)
  · intro h
    have hread := respValue_serializeResponse H v h hlen []
    rwa [List.append_nil] at hread

/-! ### A broken line -/

/-- **A broken error line.** The frame ends at the carriage return, or it is not accepted; what is
read is never all there is. -/
theorem respValue_error_ne {H : Host} {s : String} (h : '\r' ∈ s.toList)
    (hlen : (serializeResponse H (.error s)).length < 2 ^ 63) (v : RespValue) :
    respValue (serializeResponse H (.error s)) ≠ .ok ([], v) := by
  intro hok
  have hmem : (13 : UInt8) ∈ asBytes s := List.mem_flatMap.mpr ⟨'\r', h, by decide⟩
  obtain ⟨a, b, hs, ha⟩ := List.eq_append_cons_of_mem hmem
  have hbytes : serializeResponse H (.error s) = 45 :: (a ++ 13 :: (b ++ [13, 10])) := by
    simp [serializeResponse, serializeValue, crlfBytes, hs]
  rw [hbytes] at hok hlen
  -- only the parser of errors accepts the first byte
  rw [respValue_eq] at hok
  obtain ⟨p, hp, hline⟩ := exists_of_alt_ok hok
  obtain ⟨q, hq, rfl⟩ := List.mem_map.mp hp
  obtain rfl : q = (45, parseError) := by
    by_contra hne
    have hhead : q.1 ≠ 45 := by
      intro h45
      refine hne ?_
      revert hq h45
      simp only [respBranches, List.mem_cons, List.not_mem_nil, or_false]
      rintro (rfl | rfl | rfl | rfl | rfl) h45 <;> first | rfl | cases h45
    have hrefused := headed_respBranches respValue q hq (45 :: (a ++ 13 :: (b ++ [13, 10])))
      fun h => hhead (Option.some.inj h.symm)
    cases hrefused.symm.trans hline
  obtain ⟨⟨i₁, _⟩, htag, hline⟩ := bind_eq_ok.mp hline
  obtain ⟨rfl, -⟩ := Prod.mk.inj (Except.ok.inj ((tag_append [45] _).symm.trans htag))
  obtain ⟨⟨i₂, _⟩, hline, hend⟩ := bind_eq_ok.mp hline
  obtain ⟨⟨i₃, _⟩, htake, hline⟩ := bind_eq_ok.mp hline
  have hne : ∀ x ∈ a, (x != 13) = true := fun x hx =>
    bne_iff_ne.mpr fun h => ha (h ▸ hx)
  have hle : a.length ≤ usizeMax := by
    rw [List.length_cons, List.length_append] at hlen
    rw [usizeMax]
    omega
  obtain ⟨rfl, -⟩ := Prod.mk.inj (Except.ok.inj
    ((takeWhileMN_append hne hle (b := 13) rfl (b ++ [13, 10])).symm.trans htake))
  obtain ⟨⟨i₄, _⟩, hcrlf, hline⟩ := bind_eq_ok.mp hline
  obtain ⟨rfl, -⟩ := Prod.mk.inj (Except.ok.inj hline)
  obtain ⟨rfl, -⟩ := Prod.mk.inj (Except.ok.inj hend)
  have hrest := congrArg List.length (List.cons.inj (crlf_eq_ok hcrlf)).2
  rw [List.length_append] at hrest
  simp at hrest

end VeloDB
