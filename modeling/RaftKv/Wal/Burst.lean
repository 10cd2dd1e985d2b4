import RaftKv.Wal.Damage

/-! # Damage within four bytes

A payload that was changed in some window of four bytes has another checksum, although the
table of the checksum is not the standard one. Recovery stops at such a record.
-/

namespace RaftKv

/-- Data that agree outside a window, cut at its ends. -/
theorem exists_window {data damaged : Bytes} {start size : Nat}
    (hlength : damaged.length = data.length)
    (hwindow : ∀ i, ¬ (start ≤ i ∧ i < start + size) → damaged[i]? = data[i]?) :
    ∃ before after window changed, data = before ++ (window ++ after) ∧
      damaged = before ++ (changed ++ after) ∧ changed.length = window.length ∧
      window.length ≤ size := by
  refine ⟨data.take start, data.drop (start + size), (data.drop start).take size,
    (damaged.drop start).take size, ?_, ?_, ?_, ?_⟩
  · rw [← List.drop_drop, List.take_append_drop, List.take_append_drop]
  · have hbefore : data.take start = damaged.take start := by
      apply List.ext_getElem?
      intro i
      simp only [List.getElem?_take]
      split
      · exact (hwindow i (by omega)).symm
      · rfl
    have hafter : data.drop (start + size) = damaged.drop (start + size) := by
      apply List.ext_getElem?
      intro i
      simp only [List.getElem?_drop]
      exact (hwindow _ (by omega)).symm
    rw [hbefore, hafter, ← List.drop_drop, List.take_append_drop, List.take_append_drop]
  · simp only [List.length_take, List.length_drop, hlength]
  · simp only [List.length_take]
    omega

/-- Different data of one length that agree outside four bytes in a row have different
checksums; and recovery of a file stops in front of a record whose payload was changed
like that, whatever the records before it and the bytes after it. -/
theorem short_burst_detected {data damaged : Bytes} {start : Nat}
    (hlength : damaged.length = data.length) (hne : damaged ≠ data)
    (hwindow : ∀ i, ¬ (start ≤ i ∧ i < start + 4) → damaged[i]? = data[i]?) :
    crc32 damaged ≠ crc32 data ∧
      ∀ (unpack : Bytes → Option Object) (frames : List Frame) (st : Recovered Bytes)
        (type : RecordType) (rest : Bytes),
        (∀ frame ∈ frames, frame.2.length ≤ kMaxRecordPayload) →
        frames.foldlM (Recovered.record? unpack) Recovered.start = some st →
        data.length ≤ kMaxRecordPayload →
        recoverFile unpack (frames.flatMap Frame.encode ++
            (RecordHeader.encode ⟨type.code, data.length, (crc32 data).toNat⟩ ++
              (damaged ++ rest))) =
          ⟨st, (frames.flatMap Frame.encode).length, true⟩ := by
  have hcrc : crc32 damaged ≠ crc32 data := by
    obtain ⟨before, after, window, changed, rfl, rfl, hsize, hshort⟩ :=
      exists_window hlength hwindow
    exact crc32_ne_of_burst before after hsize hshort fun h => hne (by rw [h])
  refine ⟨hcrc, fun unpack frames st type rest hfits hfold hsmall => ?_⟩
  have hnonempty : RecordHeader.encode ⟨type.code, data.length, (crc32 data).toNat⟩ ++
      (damaged ++ rest) ≠ [] := List.append_ne_nil_of_left_ne_nil (List.cons_ne_nil _ _) _
  refine (recoverFile_dropped_iff hfits hfold hnonempty).mpr fun frame more hread => ?_
  have hsum := ((readFrame_header _ hsmall (crc32 data).toNat_lt _ frame more).mp hread).2.1
  rw [List.take_left' hlength] at hsum
  exact absurd (UInt32.toNat_inj.mp hsum) hcrc

/-- Three bytes of the payload of an entry are overwritten. -/
theorem short_burst_detected_entry :
    crc32 [0x94, 7, 8, 9, 5] ≠ crc32 [0x94, 0, 1, 1, 5] ∧
      recoverFile Object.unpack
          (RecordHeader.encode ⟨RecordType.entry.code, 5, (crc32 [0x94, 0, 1, 1, 5]).toNat⟩ ++
            [0x94, 7, 8, 9, 5]) = ⟨Recovered.start, 0, true⟩ := by
  have hwindow : ∀ i, ¬ (1 ≤ i ∧ i < 1 + 4) →
      ([0x94, 7, 8, 9, 5] : Bytes)[i]? = ([0x94, 0, 1, 1, 5] : Bytes)[i]? := by
    intro i hi
    obtain rfl | hi : i = 0 ∨ 5 ≤ i := by omega
    · rfl
    · rw [List.getElem?_eq_none (by simpa using hi), List.getElem?_eq_none (by simpa using hi)]
  obtain ⟨hcrc, hstop⟩ :=
    @short_burst_detected [0x94, 0, 1, 1, 5] [0x94, 7, 8, 9, 5] 1 rfl (by decide) hwindow
  have hfile := hstop Object.unpack [] Recovered.start .entry [] (by simp) rfl (by decide)
  simp only [List.flatMap_nil, List.nil_append, List.append_nil, List.length_nil,
    List.length_cons] at hfile
  exact ⟨hcrc, hfile⟩

end RaftKv
