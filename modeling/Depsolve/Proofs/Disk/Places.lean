import Mathlib.Data.List.Basic
import Depsolve.Disk.Basic
import Depsolve.Proofs.Disk.Layout

/-!
# Disks keep the laws of volumes

Paths are followed through directories only (`Disk.follow_congr`), so a change at one place where
there is no directory, before and after, leaves all paths leading where they led
(`Disk.sameBut_of_place`). From this `Disk.volume_keeps` has the laws one by one.
-/

namespace Depsolve

/-! ## The path of a draft -/

namespace FilePath

variable {p : Char → Bool}

/-- What is put behind a text without a separator in it is put behind the last part. -/
theorem exists_splitOnP_append (cs : List Char) {more : List Char}
    (hmore : ∀ c ∈ more, p c = false) :
    ∃ first last, cs.splitOnP p = first ++ [last] ∧
      (cs ++ more).splitOnP p = first ++ [last ++ more] := by
  induction cs with
  | nil => exact ⟨[], [], rfl, by simpa using List.splitOnP_eq_singleton hmore⟩
  | cons c cs ih =>
    obtain ⟨first, last, hcs, happend⟩ := ih
    rw [List.cons_append, List.splitOnP_cons_eq_if_modifyHead, List.splitOnP_cons_eq_if_modifyHead,
      hcs, happend]
    by_cases hc : p c = true
    · exact ⟨[] :: first, last, by simp [hc], by simp [hc]⟩
    · cases first with
      | nil => exact ⟨[], c :: last, by simp [hc], by simp [hc]⟩
      | cons part first => exact ⟨(c :: part) :: first, last, by simp [hc], by simp [hc]⟩

/-- The path of a draft differs from that of its file in the last segment. -/
theorem exists_segments_draft (path : String) :
    ∃ first last, segments path = first ++ [last] ∧
      segments (Volume.draft path) = first ++ [last ++ ".tmp"] := by
  have hsuffix : ∀ c ∈ ".tmp".toList, (c == '/') = false := by simp
  obtain ⟨first, last, hpath, hdraft⟩ := exists_splitOnP_append path.toList hsuffix
  refine ⟨first.map String.ofList, String.ofList last, by simp [segments, hpath], ?_⟩
  rw [segments, Volume.draft, String.toList_append, hdraft, List.map_append, List.map_singleton,
    String.ofList_append, String.ofList_toList]

end FilePath

namespace Disk

variable {d d' : Disk} {place i q : DiskPlace}

/-! ## Following a path -/

/-- Where a segment leads from a directory. -/
def next? (place : DiskPlace) (segment : String) : Option DiskPlace :=
  if FilePath.isIdle segment then some place
  else if segment = ".." then some place.dropLast
  else if nameLimit < segment.utf8ByteSize then none
  else some (place ++ [segment])

theorem follow_cons (d : Disk) (place : DiskPlace) (segment : String) (rest : List String) :
    (d.follow place (segment :: rest)).toOption =
      if d.entry? place = some .directory then (next? place segment).bind fun q =>
        (d.follow q rest).toOption
      else none := by
  rw [follow, next?]
  cases hentry : d.entry? place with
  | none => rfl
  | some entry =>
    cases entry with
    | directory => simp only [if_true]; split_ifs <;> rfl
    | text _ => rfl
    | binary _ => rfl

/-- Only the directories matter to where a path leads. -/
theorem follow_congr (h : ∀ q, d'.entry? q = some .directory ↔ d.entry? q = some .directory)
    (segments : List String) :
    (d'.follow place segments).toOption = (d.follow place segments).toOption := by
  induction segments generalizing place with
  | nil => rfl
  | cons segment rest ih => simp only [follow_cons, h, ih]

/-- Before the last segment a path leads to a directory. -/
theorem follow_concat (d : Disk) (place : DiskPlace) (first : List String) (last : String) :
    (d.follow place (first ++ [last])).toOption = (d.follow place first).toOption.bind fun q =>
      if d.entry? q = some .directory then next? q last else none := by
  induction first generalizing place with
  | nil =>
    rw [List.nil_append, follow_cons]
    simp [follow, Except.toOption]
  | cons segment first ih =>
    rw [List.cons_append, follow_cons, follow_cons]
    split_ifs
    · simp only [ih, Option.bind_assoc]
    · rfl

/-- The draft of a file lies in the directory itself, even if the file is `.` or `..`. -/
theorem next?_draft {segment : String} (h : next? place (segment ++ ".tmp") = some i) :
    i = place ++ [segment ++ ".tmp"] := by
  have hne : ∀ {s : String}, s.length < 4 → segment ++ ".tmp" ≠ s := by
    rintro s hs rfl
    rw [String.length_append, show ".tmp".length = 4 by decide] at hs
    omega
  unfold next? at h
  split_ifs at h with hidle hup
  · rw [FilePath.isIdle, Bool.or_eq_true, beq_iff_eq, beq_iff_eq] at hidle
    exact absurd hidle (not_or.2 ⟨hne (by decide), hne (by decide)⟩)
  · exact absurd hup (hne (by decide))
  · exact (Option.some.inj h).symm

/-- A file and its draft are two files. -/
theorem next?_draft_ne {segment : String} (h : next? place segment = some i) :
    next? place (segment ++ ".tmp") ≠ some i := by
  intro hdraft
  have hi := next?_draft hdraft
  have hlength : i.length = place.length + 1 := by simp [hi]
  unfold next? at h
  split_ifs at h
  · rw [← Option.some.inj h] at hlength
    omega
  · rw [← Option.some.inj h, List.length_dropLast] at hlength
    omega
  · have hsegment : place ++ [segment] = place ++ [segment ++ ".tmp"] :=
      (Option.some.inj h).trans hi
    have hlast := congrArg String.length (List.singleton_inj.1 (List.append_cancel_left hsegment))
    rw [String.length_append, show ".tmp".length = 4 by decide] at hlast
    omega

/-! ## Where the files of a disk are -/

/-- The places of a disk. -/
def layout : Layout Disk DiskPlace DiskEntry where
  place? d path := (d.place? path).toOption
  entry? := entry?

theorem lookup_cons_ite (p q : DiskPlace) (entry : DiskEntry)
    (entries : List (DiskPlace × DiskEntry)) :
    ((p, entry) :: entries).lookup q = if q = p then some entry else entries.lookup q := by
  by_cases hq : q = p
  · simp [hq]
  · have hbeq : (q == p) = false := beq_false_of_ne hq
    simp [List.lookup_cons, hbeq, hq]

theorem lookup_filter_ne (place q : DiskPlace) (entries : List (DiskPlace × DiskEntry)) :
    (entries.filter fun (p, _) => p ≠ place).lookup q = if q =
      place then none else entries.lookup q := by
  induction entries with
  | nil => simp
  | cons entry entries ih =>
    obtain ⟨p, e⟩ := entry
    rw [List.filter_cons, lookup_cons_ite]
    by_cases hp : p = place
    · simp only [hp, ne_eq, not_true_eq_false, decide_false, Bool.false_eq_true, if_false]
      rw [ih]
      split_ifs <;> rfl
    · simp only [hp, ne_eq, not_false_eq_true, decide_true, if_true]
      rw [lookup_cons_ite, ih]
      split_ifs with hqp hq <;> simp_all

theorem entry?_erase (d : Disk) (hplace : place ≠ []) (q : DiskPlace) :
    entry? (d.erase place) q = if q = place then none else d.entry? q := by
  unfold entry? erase
  rw [lookup_filter_ne]
  by_cases hq : q = []
  · simp [hq, hplace.symm]
  · simp [hq]

theorem entry?_put (d : Disk) (entry : DiskEntry) (hplace : place ≠ []) (q : DiskPlace) :
    entry? (d.put place entry) q = if q = place then some entry else d.entry? q := by
  have herase := entry?_erase d hplace q
  unfold entry? put at *
  rw [lookup_cons_ite]
  by_cases hq : q = place
  · simp [hq, hplace]
  · simpa [hq] using herase

theorem ne_nil_of_not_directory (h : d.entry? place ≠ some .directory) : place ≠ [] := by
  rintro rfl
  exact h rfl

/-- A change at one place, where neither was a directory nor is one now. -/
theorem sameBut_of_place {path : String} (hpath : (d.place? path).toOption = some place)
    (hplace : d.entry? place ≠ some .directory) (hplace' : d'.entry? place ≠ some .directory)
    (helse : ∀ q, q ≠ place → d'.entry? q = d.entry? q) : layout.SameBut [path] d d' := by
  have hdirectories : ∀ q, d'.entry? q = some .directory ↔ d.entry? q = some .directory := by
    intro q
    by_cases hq : q = place
    · simp [hq, hplace, hplace']
    · rw [helse q hq]
  constructor
  · intro other
    show (d'.place? other).toOption = (d.place? other).toOption
    unfold place?
    split_ifs
    · rfl
    · exact follow_congr hdirectories _
  · intro q hq
    apply helse
    rintro rfl
    exact hq path List.mem_cons_self hpath

theorem sameBut_put {path : String} {file : DiskEntry}
    (hpath : (d.place? path).toOption = some place) (hplace : d.entry? place ≠ some .directory)
    (hfile : file ≠ .directory) : layout.SameBut [path] d (d.put place file) := by
  have hput := entry?_put d file (ne_nil_of_not_directory hplace)
  apply sameBut_of_place hpath hplace
  · simp [hput, hfile]
  · intro q hq
    rw [hput, if_neg hq]

theorem sameBut_erase {path : String} (hpath : (d.place? path).toOption = some place)
    (hplace : d.entry? place ≠ some .directory) : layout.SameBut [path] d (d.erase place) := by
  have herase := entry?_erase d (ne_nil_of_not_directory hplace)
  apply sameBut_of_place hpath hplace
  · simp [herase]
  · intro q hq
    rw [herase, if_neg hq]

/-! ## The laws -/

theorem read?_eq_some_iff {path text : String} :
    d.read? path = some text ↔ ∃ i, (d.place? path).toOption = some i ∧
      d.entry? i = some (.text text) := by
  unfold read?
  cases d.place? path with
  | error e => simp [Except.toOption]
  | ok i =>
    cases hentry : d.entry? i with
    | none => simp [Except.toOption, hentry]
    | some entry => cases entry <;> simp [Except.toOption, hentry]

/-- What writing does. -/
theorem write_cases (d : Disk) (path content : String) :
    d.write path content = (false, d) ∨
      ∃ i, (d.place? path).toOption = some i ∧ d.entry? i ≠ some .directory ∧
        d.write path content = (true, d.put i (.text content)) := by
  unfold write
  cases d.place? path with
  | error e => exact .inl rfl
  | ok i =>
    by_cases hi : d.entry? i = some .directory
    · simp [hi]
    · exact .inr ⟨i, rfl, hi, by simp [hi]⟩

/-- What moving a file does. -/
theorem rename_cases (d : Disk) (path target : String) :
    d.rename path target = (false, d) ∨
      ∃ i j file, (d.place? path).toOption = some i ∧ (d.place? target).toOption = some j ∧
        d.entry? i = some file ∧ file ≠ .directory ∧ d.entry? j ≠ some .directory ∧
        d.rename path target = (true, (d.erase i).put j file) := by
  unfold rename
  cases d.place? path with
  | error e => exact .inl rfl
  | ok i =>
    cases d.place? target with
    | error e => exact .inl rfl
    | ok j =>
      cases hi : d.entry? i with
      | none => exact .inl (by simp [hi])
      | some file =>
        by_cases hfile : file = .directory
        · exact .inl (by simp [hi, hfile])
        · by_cases hj : d.entry? j = some .directory
          · exact .inl (by cases file <;> simp_all)
          · exact .inr ⟨i, j, file, rfl, rfl, hi, hfile, hj, by cases file <;> simp_all⟩

/-- What removing a file does. -/
theorem remove_cases (d : Disk) (path : String) :
    d.remove path = d ∨
      ∃ i, (d.place? path).toOption = some i ∧ d.entry? i ≠ some .directory ∧
        d.remove path = d.erase i := by
  unfold remove
  cases d.place? path with
  | error e => exact .inl rfl
  | ok i =>
    by_cases hi : d.entry? i = some .directory
    · simp [hi]
    · exact .inr ⟨i, rfl, hi, by simp [hi]⟩

theorem read?_eq_of_sameAt {path : String} (h : layout.SameAt path d d') :
    d'.read? path = d.read? path := by
  obtain ⟨hplace, hentry⟩ := h
  apply Option.ext
  intro text
  rw [read?_eq_some_iff, read?_eq_some_iff]
  refine exists_congr fun i => ?_
  rw [show (d'.place? path).toOption = (d.place? path).toOption from hplace]
  refine and_congr_right fun hi => ?_
  rw [show d'.entry? i = d.entry? i from hentry i hi]

theorem follow_of_place? {path : String} (h : (d.place? path).toOption = some i) :
    (d.follow [] (FilePath.segments path)).toOption = some i := by
  unfold place? at h
  split_ifs at h
  · exact nomatch h
  · exact h

/-- A file and its draft are two files. -/
theorem place?_draft_ne {path : String} (h : (d.place? path).toOption = some i) :
    (d.place? (Volume.draft path)).toOption ≠ some i := by
  intro hdraft
  obtain ⟨first, last, hsegments, hsegments'⟩ := FilePath.exists_segments_draft path
  replace h := follow_of_place? h
  replace hdraft := follow_of_place? hdraft
  rw [hsegments, follow_concat, Option.bind_eq_some_iff] at h
  obtain ⟨q, hq, hlast⟩ := h
  rw [hsegments', follow_concat, hq, Option.bind_some] at hdraft
  split_ifs at hlast hdraft
  exact next?_draft_ne hlast hdraft

/-- What moving a file with a text does when it works. -/
theorem rename_moved {path target text : String} (hread : d.read? path = some text)
    (hdone : (d.rename path target).1 = true) :
    ∃ i j, (d.place? path).toOption = some i ∧ (d.place? target).toOption = some j ∧
      layout.SameBut [path] d (d.erase i) ∧ layout.SameBut [target] (d.erase i)
        (d.rename path target).2 ∧
      ∀ q, entry? (d.rename path target).2 q =
        if q = j then some (.text text) else if q = i then none else d.entry? q := by
  obtain hfail | ⟨i, j, file, hi, hj, hfile, -, hnot, heq⟩ := d.rename_cases path target
  · simp [hfail] at hdone
  · obtain ⟨i', hi', htext⟩ := read?_eq_some_iff.1 hread
    obtain rfl : i = i' := Option.some.inj (hi.symm.trans hi')
    obtain rfl : file = .text text := Option.some.inj (hfile.symm.trans htext)
    have hnot' : d.entry? i ≠ some .directory := by simp [hfile]
    have herase := entry?_erase d (ne_nil_of_not_directory hnot')
    have hjerase : entry? (d.erase i) j ≠ some .directory := by
      rw [herase]
      split_ifs
      · exact nofun
      · exact hnot
    have hsame := sameBut_erase hi hnot'
    rw [heq]
    refine ⟨i, j, hi, hj, hsame, sameBut_put ((hsame.places target).trans hj) hjerase nofun,
      fun q => ?_⟩
    rw [entry?_put _ _ (ne_nil_of_not_directory hnot), herase]

/-- A disk keeps the laws of volumes. -/
theorem volume_keeps : volume.Keeps layout where
  read_eq := read?_eq_of_sameAt
  draft_apart := place?_draft_ne
  write_only d path text := by
    show layout.SameBut [path] d (d.write path text).2
    obtain heq | ⟨i, hi, hnot, heq⟩ := d.write_cases path text <;> rw [heq]
    · exact .refl _ _
    · exact sameBut_put hi hnot nofun
  read_write := by
    intro d path text hdone
    show (d.write path text).2.read? path = some text
    obtain heq | ⟨i, hi, hnot, heq⟩ := d.write_cases path text
    · have hfail : volume.write d path text = (false, d) := heq
      simp [hfail] at hdone
    · have hsame : layout.SameBut [path] d (d.put i (.text text)) := sameBut_put hi hnot nofun
      rw [heq, read?_eq_some_iff]
      refine ⟨i, (hsame.places path).trans hi, ?_⟩
      simp [entry?_put _ _ (ne_nil_of_not_directory hnot)]
  rename_failed := by
    intro d path target hfail
    show layout.SameBut [] d (d.rename path target).2
    obtain heq | ⟨i, j, file, -, -, -, -, -, heq⟩ := d.rename_cases path target
    · rw [heq]
      exact .refl _ _
    · have hdone : volume.rename d path target = (true, (d.erase i).put j file) := heq
      simp [hdone] at hfail
  rename_only := by
    intro d path target text hread hdone
    obtain ⟨i, j, -, -, herase, hput, -⟩ := rename_moved hread hdone
    exact (herase.mono (by simp)).trans (hput.mono (by simp))
  read_rename := by
    intro d path target text hread hdone
    obtain ⟨i, j, -, hj, herase, hput, hentry⟩ := rename_moved hread hdone
    refine read?_eq_some_iff.2 ⟨j, ?_, ?_⟩
    · exact (hput.places target).trans ((herase.places target).trans hj)
    · exact (hentry j).trans (if_pos rfl)
  rename_gone := by
    intro d path target text q hread hdone hq hne
    obtain ⟨i, j, hi, hj, -, -, hentry⟩ := rename_moved hread hdone
    obtain rfl : i = q := Option.some.inj (hi.symm.trans hq)
    have hij : i ≠ j := by
      rintro rfl
      exact hne hj
    exact (hentry i).trans (by rw [if_neg hij, if_pos rfl])
  remove_only d path := by
    show layout.SameBut [path] d (d.remove path)
    obtain heq | ⟨i, hi, hnot, heq⟩ := d.remove_cases path <;> rw [heq]
    · exact .refl _ _
    · exact sameBut_erase hi hnot

end Disk

end Depsolve
