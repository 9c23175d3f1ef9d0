import TimingChart.Proofs.Files.Walking

/-! # Paths that lead to nothing

A walk goes on until something is in its way. What is in the way of the walk to a path, or wrong with
the path itself, decides how opening the path fails. -/

namespace TimingChart.FileSystem

variable {fs : FileSystem}

/-! ## Obstacles -/

/-- What is in the way of a walk that has come to this location, and now to this part of a path. -/
inductive Obstacle (fs : FileSystem) (l : Location) (part : Bytes) : OsError → Prop where
  | nothing (habsent : fs.entry? l = none) : Obstacle fs l part .notFound
  | file {content} (hfile : fs.entry? l = some (.file content)) : Obstacle fs l part .notADirectory
  | closed (hdirectory : fs.entry? l = some .directory) (hpart : part ≠ [])
      (hclosed : l ∈ fs.closed) : Obstacle fs l part .permissionDenied
  | longName (hdirectory : fs.entry? l = some .directory) (hopen : l ∉ fs.closed)
      (hname : isName part) (hlength : nameLimit < part.length) : Obstacle fs l part .nameTooLong
  | absent (hdirectory : fs.entry? l = some .directory) (hopen : l ∉ fs.closed)
      (hname : isName part) (hlength : part.length ≤ nameLimit)
      (habsent : fs.entry? (l ++ [part]) = none) : Obstacle fs l part .notFound

theorem Obstacle.walk_cons {l : Location} {part : Bytes} {error : OsError}
    (h : fs.Obstacle l part error) (rest : List Bytes) :
    fs.walk l (part :: rest) = .error error := by
  cases h with
  | nothing habsent => rw [walk, habsent]
  | file hfile => rw [walk, hfile]
  | closed hdirectory hpart hclosed =>
      rw [walk, hdirectory]
      simp only [if_neg hpart, if_pos hclosed]
  | longName hdirectory hopen hname hlength =>
      obtain ⟨hempty, hhere, habove⟩ := isName_iff.mp hname
      rw [walk, hdirectory]
      simp only [if_neg hempty, if_neg hopen, if_neg hhere, if_neg habove, if_pos hlength]
  | absent hdirectory hopen hname hlength habsent =>
      obtain ⟨hempty, hhere, habove⟩ := isName_iff.mp hname
      rw [walk, hdirectory]
      simp only [if_neg hempty, if_neg hopen, if_neg hhere, if_neg habove,
        if_neg (Nat.not_lt.mpr hlength), habsent]

/-- A walk from here meets this obstacle. -/
def Meets (fs : FileSystem) (l : Location) (parts : List Bytes) (error : OsError) : Prop :=
  ∃ before part after last, parts = before ++ part :: after ∧ fs.Walks l before last ∧
    fs.Obstacle last part error

theorem Obstacle.meets {l : Location} {part : Bytes} {error : OsError}
    (h : fs.Obstacle l part error) (rest : List Bytes) : fs.Meets l (part :: rest) error :=
  ⟨[], part, rest, l, rfl, .done l, h⟩

/-- An obstacle behind the next location is one on the whole way. -/
theorem Meets.cons {l next : Location} {part : Bytes} {rest : List Bytes} {error : OsError}
    (h : fs.Meets next rest error)
    (hstep : ∀ {before last}, fs.Walks next before last → fs.Walks l (part :: before) last) :
    fs.Meets l (part :: rest) error := by
  obtain ⟨before, other, after, last, rfl, hwalks, hobstacle⟩ := h
  exact ⟨part :: before, other, after, last, rfl, hstep hwalks, hobstacle⟩

/-- A walk ends early exactly if there is an obstacle on the way. -/
theorem walk_eq_error_iff {l : Location} {parts : List Bytes} {error : OsError} :
    fs.walk l parts = .error error ↔ fs.Meets l parts error := by
  constructor
  · intro h
    fun_induction fs.walk l parts with
    | case1 => cases h
    | case2 l part rest habsent =>
        cases h
        exact (Obstacle.nothing habsent).meets rest
    | case3 l part rest content hfile =>
        cases h
        exact (Obstacle.file hfile).meets rest
    | case4 l rest hdirectory ih => exact (ih h).cons (.skip hdirectory)
    | case5 l part rest hdirectory hpart hclosed =>
        cases h
        exact (Obstacle.closed hdirectory hpart hclosed).meets rest
    | case6 l rest hdirectory hopen _ ih => exact (ih h).cons (.stay hdirectory hopen)
    | case7 l rest hdirectory hopen _ _ ih => exact (ih h).cons (.up hdirectory hopen)
    | case8 l part rest hdirectory hempty hopen hhere habove hlength =>
        cases h
        have hname : isName part := isName_iff.mpr ⟨hempty, hhere, habove⟩
        exact (Obstacle.longName hdirectory hopen hname hlength).meets rest
    | case9 l part rest hdirectory hempty hopen hhere habove hlength habsent =>
        cases h
        have hname : isName part := isName_iff.mpr ⟨hempty, hhere, habove⟩
        exact (Obstacle.absent hdirectory hopen hname (Nat.not_lt.mp hlength) habsent).meets rest
    | case10 l part rest hdirectory hempty hopen hhere habove hlength e he ih =>
        have hname : isName part := isName_iff.mpr ⟨hempty, hhere, habove⟩
        exact (ih h).cons (.down hdirectory hopen hname (Nat.not_lt.mp hlength) (by simp [he]))
  · intro h
    obtain ⟨before, part, after, last, rfl, hwalks, hobstacle⟩ := h
    rw [hwalks.walk_append, hobstacle.walk_cons]

/-! ## Opening -/

/-- Why a path cannot be opened. -/
inductive CannotOpen (fs : FileSystem) (p : Path) : IoFault → Prop where
  | zeroInName (hzero : 0 ∈ p.bytes) : CannotOpen fs p .zeroInName
  | empty (hempty : p.bytes = []) : CannotOpen fs p (.os .notFound)
  | longPath (hzero : 0 ∉ p.bytes) (hlength : pathLimit ≤ p.bytes.length) :
      CannotOpen fs p (.os .nameTooLong)
  | obstacle {error} (hcheck : check p = .ok ()) (hmeets : fs.Meets (fs.origin p) p.parts error) :
      CannotOpen fs p (.os error)
  | closed {l} (hfind : fs.find p = .ok l) (hclosed : l ∈ fs.closed) :
      CannotOpen fs p (.os .permissionDenied)
  | nothing {l} (hfind : fs.find p = .ok l) (hopen : l ∉ fs.closed) (habsent : fs.entry? l = none) :
      CannotOpen fs p (.os .notFound)

theorem check_eq_error_iff {p : Path} {fault : IoFault} :
    check p = .error fault ↔
      0 ∈ p.bytes ∧ .zeroInName = fault ∨ p.bytes = [] ∧ .os .notFound = fault ∨
        0 ∉ p.bytes ∧ pathLimit ≤ p.bytes.length ∧ .os .nameTooLong = fault := by
  unfold check Path.isEmpty
  by_cases hzero : 0 ∈ p.bytes
  · have hne : p.bytes ≠ [] := List.ne_nil_of_mem hzero
    simp [hzero, hne]
  · by_cases hempty : p.bytes = []
    · simp [hempty, pathLimit]
    · by_cases hlength : pathLimit ≤ p.bytes.length
      · simp [hzero, hempty, hlength]
      · simp [hzero, hempty, hlength]

theorem find_eq_error_iff {p : Path} {fault : IoFault} :
    fs.find p = .error fault ↔ check p = .error fault ∨
      check p = .ok () ∧ ∃ error, fs.Meets (fs.origin p) p.parts error ∧ fault = .os error := by
  simp only [find, bind_eq_error_iff, mapError_eq_error_iff, walk_eq_error_iff]
  constructor
  · rintro (hcheck | ⟨⟨⟩, hcheck, hmeets⟩)
    · exact .inl hcheck
    · exact .inr ⟨hcheck, hmeets⟩
  · rintro (hcheck | ⟨hcheck, hmeets⟩)
    · exact .inl hcheck
    · exact .inr ⟨(), hcheck, hmeets⟩

/-- Opening fails for these reasons, and for no others. -/
theorem get_eq_error_iff {p : Path} {fault : IoFault} :
    fs.get p = .error fault ↔ fs.CannotOpen p fault := by
  simp only [get, bind_eq_error_iff, ite_throw_eq_error_iff, find_eq_error_iff, check_eq_error_iff]
  constructor
  · rintro (((⟨hzero, rfl⟩ | ⟨hempty, rfl⟩ | ⟨hzero, hlength, rfl⟩) |
      ⟨hcheck, error, hmeets, rfl⟩) | ⟨l, hfind, ⟨hclosed, rfl⟩ | ⟨hopen, hentry⟩⟩)
    · exact .zeroInName hzero
    · exact .empty hempty
    · exact .longPath hzero hlength
    · exact .obstacle hcheck hmeets
    · exact .closed hfind hclosed
    · split at hentry
      · cases hentry
      · next habsent =>
        cases hentry
        exact .nothing hfind hopen habsent
  · intro h
    cases h with
    | zeroInName hzero => exact .inl (.inl (.inl ⟨hzero, rfl⟩))
    | empty hempty => exact .inl (.inl (.inr (.inl ⟨hempty, rfl⟩)))
    | longPath hzero hlength => exact .inl (.inl (.inr (.inr ⟨hzero, hlength, rfl⟩)))
    | obstacle hcheck hmeets => exact .inl (.inr ⟨hcheck, _, hmeets, rfl⟩)
    | closed hfind hclosed => exact .inr ⟨_, hfind, .inl ⟨hclosed, rfl⟩⟩
    | nothing hfind hopen habsent => exact .inr ⟨_, hfind, .inr ⟨hopen, by rw [habsent]; rfl⟩⟩

end TimingChart.FileSystem
