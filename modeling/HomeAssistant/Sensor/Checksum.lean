import HomeAssistant.Sensor.Frame

/-!
# The checksum of the sensor

The last byte of a frame is the sum of the others in 8 bits. `dth11_read_statistics` adds in 16
bits, and it leaves out the reading if the sums differ but returns `ESP_OK` all the same. So it
accepts a frame exactly when it should for those frames only whose bytes sum up to the last one
without a carry (`accepts_exactly_iff`).
-/

namespace HomeAssistant.Sensor

/-- A result accepts the bytes exactly if their checksum is right. -/
structure AcceptsExactly (data : Data) (r : EspErr × List Log) : Prop where
  accepted : r.1 = .ok ∧ Log.reading (readingOf data) ∈ r.2 ↔ ChecksumRight data
  rejected : ¬ ChecksumRight data → r.1 ≠ .ok

theorem checksum_eq_iff {data : Data} : checksum data = (data 4).toUInt16 ↔
    (data 0).toNat + (data 1).toNat + (data 2).toNat + (data 3).toNat = (data 4).toNat := by
  have h0 := (data 0).toNat_lt
  have h1 := (data 1).toNat_lt
  have h2 := (data 2).toNat_lt
  have h3 := (data 3).toNat_lt
  rw [← UInt16.toNat_inj]
  simp only [checksum, UInt16.toNat_add, UInt8.toNat_toUInt16]
  omega

theorem checksumRight_of_sum {data : Data}
    (h : (data 0).toNat + (data 1).toNat + (data 2).toNat + (data 3).toNat = (data 4).toNat) :
    ChecksumRight data := by
  have h4 := (data 4).toNat_lt
  rw [ChecksumRight, ← UInt8.toNat_inj]
  simp only [UInt8.toNat_add]
  omega

/-- **When a reading is accepted exactly if its checksum is right**: for the frames whose first four
bytes sum up to the last one, without a carry. -/
theorem accepts_exactly_iff {line : Line} {data : Data} (h : receiveData line = .ok data) :
    AcceptsExactly data (dth11ReadStatistics line) ↔
      (data 0).toNat + (data 1).toNat + (data 2).toNat + (data 3).toNat = (data 4).toNat := by
  have hret : dth11ReadStatistics line =
      (.ok, if checksum data = (data 4).toUInt16 then [.reading (readingOf data)] else []) := by
    rw [dth11ReadStatistics, h]
  rw [hret, ← checksum_eq_iff]
  constructor
  · intro hexact
    have hright : ChecksumRight data := by
      by_contra hwrong
      exact hexact.rejected hwrong rfl
    by_contra hsum
    have hlog := (hexact.accepted.2 hright).2
    rw [if_neg hsum] at hlog
    cases hlog
  · intro hsum
    have hright := checksumRight_of_sum (checksum_eq_iff.1 hsum)
    rw [if_pos hsum]
    exact ⟨iff_of_true ⟨rfl, List.mem_singleton_self _⟩ hright, fun h => absurd hright h⟩

/-- A reading whose sum has no carry. -/
theorem accepts_exactly_reading : AcceptsExactly ![51, 0, 23, 4, 78]
    (dth11ReadStatistics (plainWaveform ![51, 0, 23, 4, 78]).line) :=
  (accepts_exactly_iff (Waveform.receiveData_of_lead _ rfl)).2 (by decide)

/-- A right frame whose sum has a carry is not reported, and a wrong frame is returned as a good
one. -/
theorem carry_and_corruption :
    (receiveData (plainWaveform ![200, 100, 0, 0, 44]).line = .ok ![200, 100, 0, 0, 44] ∧
      ChecksumRight ![200, 100, 0, 0, 44] ∧
      dth11ReadStatistics (plainWaveform ![200, 100, 0, 0, 44]).line = (.ok, []) ∧
      ¬ AcceptsExactly ![200, 100, 0, 0, 44]
        (dth11ReadStatistics (plainWaveform ![200, 100, 0, 0, 44]).line)) ∧
    receiveData (plainWaveform ![51, 0, 23, 4, 79]).line = .ok ![51, 0, 23, 4, 79] ∧
      ¬ ChecksumRight ![51, 0, 23, 4, 79] ∧
      dth11ReadStatistics (plainWaveform ![51, 0, 23, 4, 79]).line = (.ok, []) ∧
      ¬ AcceptsExactly ![51, 0, 23, 4, 79]
        (dth11ReadStatistics (plainWaveform ![51, 0, 23, 4, 79]).line) := by
  have hcarry : dth11ReadStatistics (plainWaveform ![200, 100, 0, 0, 44]).line = (.ok, []) := by
    rw [dth11ReadStatistics, Waveform.receiveData_of_lead _ rfl]
    rfl
  have hwrong : dth11ReadStatistics (plainWaveform ![51, 0, 23, 4, 79]).line = (.ok, []) := by
    rw [dth11ReadStatistics, Waveform.receiveData_of_lead _ rfl]
    rfl
  refine ⟨⟨Waveform.receiveData_of_lead _ rfl, by decide, hcarry, fun h => ?_⟩,
    Waveform.receiveData_of_lead _ rfl, by decide, hwrong, fun h => ?_⟩
  · rw [hcarry] at h
    have hlog := (h.accepted.2 (by decide)).2
    cases hlog
  · rw [hwrong] at h
    exact h.rejected (by decide) rfl

end HomeAssistant.Sensor
