import ImageProbe.Proofs.Bytes.Bits

namespace ImageProbe

namespace BitCursor

/-- A cursor in use, with the calls made of it, the last one first: how many bits were asked for,
and the answer. -/
structure Use where
  cursor : BitCursor
  calls : List (Nat × Except Shortage Nat) := []

namespace Use

def ofBytes (data : Bytes) : Use := { cursor := .ofBytes data }

def call (u : Use) (n : Nat) : Use :=
  match u.cursor.read n with
  | .ok (value, cursor) => ⟨cursor, (n, .ok value) :: u.calls⟩
  | .error shortage => ⟨u.cursor, (n, .error shortage) :: u.calls⟩

def granted (u : Use) : Nat := ((u.calls.filter (·.2.isOk)).map (·.1)).foldr (· + ·) 0

structure Stands (data : Bytes) (u : Use) : Prop where
  cursor : u.cursor = ⟨data, u.granted⟩
  inside : u.granted ≤ 8 * data.length

/-- What the calls of a cursor tell of the number that its bytes make up. -/
structure Spells (data : Bytes) (u : Use) : Prop extends Stands data u where
  read {n : Nat} : n ≤ 32 → n ≤ 8 * data.length - u.granted →
    u.call n = ⟨⟨data, u.granted + n⟩,
      (n, .ok ((littleEndian data >>> u.granted) % (1 <<< n))) :: u.calls⟩
  refused {n : Nat} : 8 * data.length - u.granted < n →
    u.call n = ⟨⟨data, u.granted⟩, (n, .error ⟨n, 8 * data.length - u.granted⟩) :: u.calls⟩
  parted {n m : Nat} : n + m ≤ 32 → n + m ≤ 8 * data.length - u.granted →
    ∃ (cursor : BitCursor) (whole : Nat),
      u.call (n + m) = ⟨cursor, (n + m, .ok whole) :: u.calls⟩ ∧
        (u.call n).call m =
          ⟨cursor, (m, .ok (whole >>> n)) :: (n, .ok (whole % (1 <<< n))) :: u.calls⟩

theorem granted_ok (c : BitCursor) (n value : Nat) (calls : List (Nat × Except Shortage Nat)) :
    granted ⟨c, (n, .ok value) :: calls⟩ = granted ⟨c, calls⟩ + n := by
  rw [Nat.add_comm]
  rfl

variable {data : Bytes} {u : Use} {n m : Nat}

theorem Stands.call_granted (hu : Stands data u) (hn : n ≤ 32)
    (hleft : n ≤ 8 * data.length - u.granted) :
    u.call n = ⟨⟨data, u.granted + n⟩,
      (n, .ok ((littleEndian data >>> u.granted) % (1 <<< n))) :: u.calls⟩ := by
  have hread : u.cursor.read n =
      .ok ((littleEndian data >>> u.granted) % (1 <<< n), ⟨data, u.granted + n⟩) := by
    rw [hu.cursor]
    exact BitReading.bits_run hleft hn
  rw [call, hread]

theorem Stands.call_refused (hu : Stands data u)
    (hshort : ¬ (n ≤ 8 * data.length - u.granted ∧ n ≤ 32)) :
    u.call n = ⟨⟨data, u.granted⟩, (n, .error ⟨n, 8 * data.length - u.granted⟩) :: u.calls⟩ := by
  have hread : u.cursor.read n = .error ⟨n, 8 * data.length - u.granted⟩ := by
    rw [hu.cursor]
    exact if_neg hshort
  rw [call, hread, hu.cursor]

theorem Stands.call (hu : Stands data u) (n : Nat) : Stands data (u.call n) := by
  have hinside := hu.inside
  by_cases hn : n ≤ 8 * data.length - u.granted ∧ n ≤ 32
  · rw [hu.call_granted hn.2 hn.1]
    refine ⟨by rw [granted_ok]; rfl, ?_⟩
    rw [granted_ok]
    exact Nat.add_le_of_le_sub' hinside hn.1
  · rw [hu.call_refused hn]
    exact ⟨rfl, hinside⟩

theorem stands_calls (data : Bytes) (asked : List Nat) :
    Stands data (asked.foldl call (ofBytes data)) := by
  have h (u : Use) (hu : Stands data u) : Stands data (asked.foldl call u) := by
    induction asked generalizing u with
    | nil => exact hu
    | cons n asked ih => exact ih _ (hu.call n)
  exact h _ ⟨rfl, Nat.zero_le _⟩

theorem low_part (a n m : Nat) : a % (1 <<< (n + m)) % (1 <<< n) = a % (1 <<< n) := by
  rw [Nat.one_shiftLeft, Nat.one_shiftLeft]
  exact Nat.mod_mod_of_dvd a (Nat.pow_dvd_pow 2 (Nat.le_add_right n m))

theorem high_part (a n m : Nat) : (a % (1 <<< (n + m))) >>> n = (a >>> n) % (1 <<< m) := by
  rw [Nat.one_shiftLeft, Nat.one_shiftLeft, Nat.shiftRight_eq_div_pow, Nat.shiftRight_eq_div_pow,
    Nat.pow_add, Nat.mod_mul_right_div_self]

theorem Stands.parted (hu : Stands data u) (hwidth : n + m ≤ 32)
    (hleft : n + m ≤ 8 * data.length - u.granted) :
    ∃ (cursor : BitCursor) (whole : Nat),
      u.call (n + m) = ⟨cursor, (n + m, .ok whole) :: u.calls⟩ ∧
        (u.call n).call m =
          ⟨cursor, (m, .ok (whole >>> n)) :: (n, .ok (whole % (1 <<< n))) :: u.calls⟩ := by
  have hfirst := hu.call_granted (n := n) (by omega) (by omega)
  have hgranted : (u.call n).granted = u.granted + n := by
    rw [hfirst, granted_ok]
    rfl
  have hsecond := (hu.call n).call_granted (n := m) (by omega) (by omega)
  rw [hgranted, Nat.add_assoc] at hsecond
  refine ⟨_, _, hu.call_granted hwidth hleft, ?_⟩
  rw [hsecond, low_part, high_part, ← Nat.shiftRight_add, hfirst]

/-- Whatever has been read before, a call reads the next bits of the number that the bytes are if
there are as many left, and changes nothing otherwise. -/
theorem calls_spell (data : Bytes) (asked : List Nat) :
    Spells data (asked.foldl call (ofBytes data)) := by
  have hstands := stands_calls data asked
  exact {
    toStands := hstands
    read := hstands.call_granted
    refused := fun hshort => hstands.call_refused fun h => absurd h.1 (Nat.not_le.2 hshort)
    parted := hstands.parted }

theorem calls_spell_straddling :
    let data : Bytes := [0xa6, 0xff, 0x03]
    let u := [1, 30, 5].foldl call (ofBytes data)
    u.calls.map (fun call => (call.1, call.2.toOption)) = [(5, some 19), (30, none), (1, some 0)] ∧
      littleEndian data = 0x3ffa6 ∧
      u.call 11 = ⟨⟨data, 17⟩, (11, .ok 2046) :: u.calls⟩ ∧
      u.call 19 = ⟨⟨data, 6⟩, (19, .error ⟨19, 18⟩) :: u.calls⟩ := by
  intro data u
  have hspells : Spells data u := calls_spell data [1, 30, 5]
  have hnumber : littleEndian data = 0x3ffa6 := by decide
  have hgranted : u.granted = 6 := rfl
  have hread := hspells.read (n := 11) (by decide) (by decide)
  have hrefused := hspells.refused (n := 19) (by decide)
  rw [hgranted, hnumber] at hread
  rw [hgranted] at hrefused
  exact ⟨by decide, hnumber, hread, hrefused⟩

end Use

end BitCursor

end ImageProbe
