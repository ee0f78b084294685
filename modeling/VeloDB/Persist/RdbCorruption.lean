import VeloDB.Lib.Checksum
import VeloDB.Persist.RdbFraming

/-!
# Corrupted bytes

The checksum of a snapshot multiplies by `2 ^ 60 + 1` modulo `2 ^ 64` and adds the next byte. The
multiplier is invertible, so no step loses anything and one changed byte of the body changes the
checksum. It is one modulo `2 ^ 60`, so there the checksum is the sum of the bytes; a body has a
byte that is not zero, and below `2 ^ 52` bytes the sum cannot come back to zero, which is the value
that switches the check off.

For the same reason the checksum hardly sees the order of the bytes. `crc * M + byte` for two bytes
in one order and in the other differs by `2 ^ 60` times their difference, of which sixteen copies
make zero: only the low four bits of the two bytes tell the orders apart, where a cyclic code would
tell any two apart.

## Main results

* `loadRdb_changedOnce` — one changed byte
* `crc64_swap_ne_iff` — two neighbours that change places
-/

namespace VeloDB

open Rust Checksum

/-! ### The checksum -/

/-- The multiplier has an inverse. -/
theorem crcStep_injective (byte : UInt8) :
    Function.Injective fun crc : UInt64 => crc * 0x1000000000000001 + byte.toUInt64 := by
  intro a b hab
  have hinv : (0x1000000000000001 : UInt64) * 0xF000000000000001 = 1 := by decide
  have hmul : a * 0x1000000000000001 = b * 0x1000000000000001 := (UInt64.add_left_inj _).mp hab
  have hone : ∀ c : UInt64, c * 0x1000000000000001 * 0xF000000000000001 = c := by
    intro c
    rw [UInt64.mul_assoc, hinv, UInt64.mul_one]
  rw [← hone a, hmul, hone b]

theorem crcByte_injective (crc : UInt64) :
    Function.Injective fun byte : UInt8 => crc * 0x1000000000000001 + byte.toUInt64 :=
  fun _ _ h => UInt8.toUInt64_inj.mp ((UInt64.add_right_inj _).mp h)

/-- **One changed byte changes the checksum.** -/
theorem crc64_ne {data data' : Bytes} (h : ChangedOnce data data') : crc64 data ≠ crc64 data' :=
  h.foldl_ne crcStep_injective crcByte_injective 0

/-- Two steps of the checksum commute when the low four bits of the bytes agree. -/
theorem crcStep_comm_iff (crc : UInt64) (a b : UInt8) :
    (crc * 0x1000000000000001 + a.toUInt64) * 0x1000000000000001 + b.toUInt64
        = (crc * 0x1000000000000001 + b.toUInt64) * 0x1000000000000001 + a.toUInt64 ↔
      a.toNat % 16 = b.toNat % 16 := by
  have hstep : ∀ (c : UInt64) (x : UInt8), (c * 0x1000000000000001 + x.toUInt64).toNat
      = (c.toNat * (2 ^ 60 + 1) + x.toNat) % 2 ^ 64 := by
    intro c x
    rw [UInt64.toNat_add, UInt64.toNat_mul, UInt8.toNat_toUInt64, Nat.mod_add_mod]
    rfl
  have ha := a.toNat_lt
  have hb := b.toNat_lt
  rw [← UInt64.toNat_inj, hstep, hstep, hstep, hstep]
  omega

/-- **Two neighbours that change places** change the checksum when they differ in their low four
bits, and only then. -/
theorem crc64_swap_ne_iff (before after : Bytes) (a b : UInt8) :
    crc64 (before ++ a :: b :: after) ≠ crc64 (before ++ b :: a :: after) ↔
      a.toNat % 16 ≠ b.toNat % 16 :=
  not_congr ((foldl_swap_iff crcStep_injective before after a b 0).trans (crcStep_comm_iff _ a b))

/-- `1A` and `A1`. -/
theorem crc64_swap_missed : ¬∀ (before after : Bytes) (a b : UInt8), a ≠ b →
    crc64 (before ++ a :: b :: after) ≠ crc64 (before ++ b :: a :: after) := by
  intro h
  exact h [] [] 0x31 0x41 (by decide) (by decide)

/-- Modulo `2 ^ 60`, the checksum is the sum of the bytes. -/
theorem crc64_modEq (data : Bytes) :
    (crc64 data).toNat ≡ (data.map UInt8.toNat).sum [MOD 2 ^ 60] := by
  have hstep : ∀ (crc : UInt64) (byte : UInt8),
      (crc * 0x1000000000000001 + byte.toUInt64).toNat ≡ crc.toNat + byte.toNat [MOD 2 ^ 60] := by
    intro crc byte
    have hadd : (crc * 0x1000000000000001 + byte.toUInt64).toNat
        = (crc.toNat * 0x1000000000000001 % 2 ^ 64 + byte.toNat) % 2 ^ 64 := by
      rw [UInt64.toNat_add, UInt64.toNat_mul, UInt8.toNat_toUInt64]
      rfl
    rw [hadd, Nat.ModEq]
    omega
  have hsum := foldl_modEq_sum hstep data 0
  rwa [UInt64.toNat_zero, Nat.zero_add] at hsum

theorem sum_le (data : Bytes) : (data.map UInt8.toNat).sum ≤ 255 * data.length := by
  induction data with
  | nil => exact Nat.zero_le _
  | cons b data ih =>
    have hb := b.toNat_lt
    rw [List.map_cons, List.sum_cons, List.length_cons]
    omega

/-- A short body with a byte that is not zero has a checksum that is not zero. -/
theorem crc64_ne_zero {data : Bytes} {byte : UInt8} (hbyte : byte ∈ data) (hne : byte ≠ 0)
    (hlen : data.length < 2 ^ 52) : crc64 data ≠ 0 := by
  intro hzero
  have hmod := crc64_modEq data
  rw [hzero, UInt64.toNat_zero, Nat.ModEq] at hmod
  have hle := sum_le data
  have hpos : 0 < byte.toNat := Nat.pos_of_ne_zero fun h => hne (UInt8.toNat_inj.mp h)
  have hmem : byte.toNat ≤ (data.map UInt8.toNat).sum :=
    List.single_le_sum (fun _ _ => Nat.zero_le _) _ (List.mem_map_of_mem hbyte)
  omega

/-! ### The file -/

/-- The body of a snapshot is empty or begins with the number of a database. -/
theorem writeDbs_head {now : UInt64} {dbs : Databases} {i n : ℕ} {body : Bytes}
    (h : writeDbs now dbs i n = .ok body) : body = [] ∨ dbSelect ∈ body := by
  cases n with
  | zero => exact Or.inl (Except.ok.inj h).symm
  | succ n =>
    rw [writeDbs, writeDb] at h
    cases hentries : dbs.iterateDb now i with
    | error e =>
      rw [hentries] at h
      cases h
    | ok entries =>
      rw [hentries] at h
      cases hrest : writeDbs now dbs (i + 1) n with
      | error e =>
        rw [hrest] at h
        cases h
      | ok r =>
        rw [hrest] at h
        obtain rfl := Except.ok.inj h
        exact Or.inr List.mem_cons_self

theorem drop_parts {magic version crc body : Bytes} (hmagic : magic.length = 4)
    (hversion : version.length = 4) (hcrc : crc.length = 8) :
    (magic ++ (version ++ (crc ++ body))).drop 16 = body := by
  rw [show 16 = 4 + (4 + 8) by rfl, ← List.drop_drop, List.drop_left' hmagic, ← List.drop_drop,
    List.drop_left' hversion, List.drop_left' hcrc]

/-- A file in its four parts is refused for its magic or its checksum. -/
theorem refused_parts {magic version crc body : Bytes} (hmagic : magic.length = 4)
    (hversion : version.length = 4) (hcrc : crc.length = 8) :
    Refused (magic ++ (version ++ (crc ++ body))) ↔ magic ≠ asBytes "VELO" ∨
      UInt64.ofNat (ofLeBytes crc) ≠ 0 ∧ UInt64.ofNat (ofLeBytes crc) ≠ crc64 body := by
  have hlen : ¬(magic ++ (version ++ (crc ++ body))).length < 16 := by
    simp only [List.length_append]
    omega
  have h8 : (magic ++ (version ++ (crc ++ body))).drop 8 = crc ++ body := by
    rw [← List.append_assoc, List.drop_left' (by rw [List.length_append]; omega)]
  have h16 : (magic ++ (version ++ (crc ++ body))).drop 16 = body :=
    drop_parts hmagic hversion hcrc
  rw [Refused, List.take_left' hmagic, h16, h8, List.take_left' hcrc]
  exact ⟨fun h => h.resolve_left hlen, Or.inr⟩

theorem loadRdb_parts {magic version crc body : Bytes} (hmagic : magic.length = 4)
    (hversion : version.length = 4) (hcrc : crc.length = 8)
    (h : ¬Refused (magic ++ (version ++ (crc ++ body)))) (dst : Databases) :
    loadRdb dst (magic ++ (version ++ (crc ++ body)))
      = loadLoop (16 + body.length) { databases := dst } body := by
  have hlen : (magic ++ (version ++ (crc ++ body))).length = 16 + body.length := by
    simp only [List.length_append]
    omega
  rw [loadRdb_of_not_refused h, hlen, drop_parts hmagic hversion hcrc]

/-- **A single corrupted byte is never loaded silently.** Whatever `save_rdb` has written, and
whichever byte is changed, loading it is refused before anything is stored, or does what loading the
file as it was written does. -/
theorem loadRdb_changedOnce {now : UInt64} {src : Databases} {n : ℕ} {file data : Bytes}
    (hsave : saveRdb now src n = .ok file) (hbody : (file.drop 16).length < 2 ^ 52)
    (hchanged : ChangedOnce file data) (dst : Databases) :
    (∃ e, e ≠ .panic ∧ loadRdb dst data = (dst, .error e)) ∨
      loadRdb dst data = loadRdb dst file := by
  cases hdbs : writeDbs now src 0 n with
  | error e =>
    rw [saveRdb, hdbs] at hsave
    cases hsave
  | ok body =>
    have hfile : file = asBytes "VELO" ++ ([0, 1, 0, 0] ++ (writeU64Le (crc64 body) ++ body)) := by
      rw [saveRdb, hdbs] at hsave
      exact (Except.ok.inj hsave).symm
    have hcrc : (writeU64Le (crc64 body)).length = 8 := length_leBytes ..
    have hstored : UInt64.ofNat (ofLeBytes (writeU64Le (crc64 body))) = crc64 body := by
      rw [writeU64Le, ofLeBytes_leBytes (by simpa using (crc64 body).toNat_lt), UInt64.ofNat_toNat]
    have hwritten : ¬Refused file := by
      rw [hfile, refused_parts rfl rfl hcrc, hstored]
      rintro (h | ⟨-, h⟩) <;> exact h rfl
    have hload : loadRdb dst file = loadLoop (16 + body.length) { databases := dst } body := by
      subst hfile
      exact loadRdb_parts rfl rfl hcrc hwritten dst
    rw [hload]
    by_cases hrefused : Refused data
    · obtain ⟨e, he, hdata⟩ := loadRdb_of_refused hrefused dst
      exact Or.inl ⟨e, he, hdata⟩
    refine Or.inr ?_
    subst hfile
    rcases hchanged.of_append with ⟨magic, hmagic, rfl⟩ | ⟨_, hfrom4, rfl⟩
    · -- Another magic is refused.
      refine absurd ?_ hrefused
      rw [refused_parts hmagic.length_eq.symm rfl hcrc]
      exact Or.inl hmagic.ne.symm
    rcases hfrom4.of_append with ⟨version, hversion, rfl⟩ | ⟨_, hfrom8, rfl⟩
    · -- Nothing depends on the version.
      exact loadRdb_parts rfl hversion.length_eq.symm hcrc hrefused dst
    rcases hfrom8.of_append with ⟨crc, hcrc', rfl⟩ | ⟨body', hbody', rfl⟩
    · -- Another checksum is refused, unless it switches the check off.
      exact loadRdb_parts rfl rfl (hcrc'.length_eq.symm.trans hcrc) hrefused dst
    · -- Another body has another checksum, and the stored one is not zero.
      refine absurd ?_ hrefused
      rw [refused_parts rfl rfl hcrc, hstored]
      refine Or.inr ⟨?_, crc64_ne hbody'⟩
      have hlen : body.length < 2 ^ 52 := by
        rwa [drop_parts rfl rfl hcrc] at hbody
      rcases writeDbs_head hdbs with rfl | hmem
      · obtain ⟨l, a, b, r, -, hnil, -⟩ := hbody'
        exact absurd hnil.symm (by simp)
      · exact crc64_ne_zero hmem (by decide) hlen

/-- One database with a string and a list that expires. -/
def savedPair : Databases :=
  ((Store.new 1).databases.put 0 [115] { value := .string [53] }).put 0 [107]
    { value := .list [[53], [54]], expireAt := some 99 }

/-- Its section up to the one byte of the string. -/
def savedHead : Bytes :=
  dbSelect :: 0 :: expireTime :: (writeU64Le 99 ++
    [typeList, 0, 0, 0, 1, 107, 0, 0, 0, 2, 0, 0, 0, 1, 53, 0, 0, 0, 1, 54,
      typeString, 0, 0, 0, 1, 115, 0, 0, 0, 1])

/-- Its snapshot, in which the string is that byte. -/
def savedFile (digit : UInt8) : Bytes :=
  rdbHeader ++ (writeU64Le (crc64 (savedHead ++ [53, dbEnd])) ++ (savedHead ++ [digit, dbEnd]))

/-- A `5` that has become a `6` is refused. -/
theorem loadRdb_changedOnce_digit :
    ∃ e, e ≠ .panic ∧ loadRdb (Store.new 1).databases (savedFile 54)
      = ((Store.new 1).databases, .error e) := by
  have hsave : saveRdb 7 savedPair 1 = .ok (savedFile 53) := by decide +kernel
  have hchanged : ChangedOnce (savedFile 53) (savedFile 54) :=
    ⟨rdbHeader ++ (writeU64Le (crc64 (savedHead ++ [53, dbEnd])) ++ savedHead), 53, 54, [dbEnd],
      by decide, by simp [savedFile], by simp [savedFile]⟩
  rcases loadRdb_changedOnce hsave (by decide) hchanged (Store.new 1).databases with h | h
  · exact h
  · -- the file itself has two entries, and this one is not loaded
    have hfile : (loadRdb (Store.new 1).databases (savedFile 53)).2.toOption = some 2 := by
      decide +kernel
    have hdata : (loadRdb (Store.new 1).databases (savedFile 54)).2.toOption = none := by
      decide +kernel
    rw [h, hfile] at hdata
    cases hdata

end VeloDB
