import EmergentFlow.Lib.Checks
import EmergentFlow.Lib.Decimal
import EmergentFlow.Lib.Windows
import Mathlib.Data.List.Sort

/-!
# Data — Documents

The document loader (`data/documents.py`): the files at a path are read to text, cut
into overlapping chunks, and laid out as one frame of rows. The file system, the
PDF reader and `str.lower` are parameters.

The chunks of a file lose nothing. Whether the frame keeps the files apart depends
on their names only: a row names its document by the stem of the file.
-/

namespace EmergentFlow.Documents

/-! ## Files -/

inductive LoadError where
  | path_must_be_a_non_empty_string (path : String)
  | path_does_not_exist (path : String)
  | contains_no_supported_files (path : String)
  | unsupported_file_type (suffix path : String)
  | chunk_size_must_be_positive (chunk_size : Int)
  | chunk_overlap_must_be_less (chunk_overlap chunk_size : Int)
  | missing_optional_dependency (extra : String)
  | unreadable (message : String)
  deriving DecidableEq, Repr

/-- A file: `name` is the last part of its path, `path` its text. -/
structure File where
  name : String
  path : String
  read_text : Except LoadError String
  pages : Except LoadError (List (Option String))

/-- What `iterdir` lists. -/
structure DirEntry where
  file : File
  is_file : Bool

/-- A directory lists no path twice. -/
structure Listing where
  entries : List DirEntry
  nodup : (entries.map (·.file.path)).Nodup

inductive FsEntry where
  | file (file : File)
  | directory (listing : Listing)

structure Host where
  entry : String → Option FsEntry
  pypdf : Bool
  lower : String → String

/-! ## Names -/

/-- `rfind(".")`. -/
def rfind_dot (name : List Char) : Option Nat :=
  if '.' ∈ name then some (name.length - 1 - name.reverse.idxOf '.') else none

/-- A dot at either end of a name starts no suffix. -/
def suffix_start (name : List Char) : Option Nat :=
  (rfind_dot name).filter fun i => 0 < i && i < name.length - 1

def File.suffix (file : File) : String :=
  match suffix_start file.name.toList with
  | some i => String.ofList (file.name.toList.drop i)
  | none => ""

def File.stem (file : File) : String :=
  match suffix_start file.name.toList with
  | some i => String.ofList (file.name.toList.take i)
  | none => file.name

def SUPPORTED_EXTENSIONS : List String := [".pdf", ".txt", ".md", ".markdown"]

def supported (host : Host) (file : File) : Bool := host.lower file.suffix ∈ SUPPORTED_EXTENSIONS

/-! ## Texts -/

/-- `_read_pdf_file`. -/
def read_pdf_file (host : Host) (file : File) : Except LoadError String := do
  Checks.guard host.pypdf (.missing_optional_dependency "emergentflow[docs]")
  let pages ← file.pages
  return String.intercalate "\n" (pages.map (·.getD ""))

def file_text (host : Host) (file : File) : Except LoadError String :=
  if host.lower file.suffix = ".pdf" then read_pdf_file host file else file.read_text

/-- `_chunk_text`. -/
def chunk_text (text : String) (chunk_size chunk_overlap : Int) : Except LoadError (List String) :=
  if chunk_size ≤ 0 then .error (.chunk_size_must_be_positive chunk_size)
  else if hoverlap : chunk_overlap < 0 ∨ chunk_overlap ≥ chunk_size then
    .error (.chunk_overlap_must_be_less chunk_overlap chunk_size)
  else if text = "" then .ok [""]
  else
    .ok ((Windows.slide chunk_size.toNat (chunk_size - chunk_overlap).toNat (by omega)
      text.toList 0).map String.ofList)

/-! ## The frame -/

structure Row where
  doc_id : String
  chunk_id : String
  chunk_index : Nat
  text : String
  source_path : String
  char_count : Nat
  deriving DecidableEq, Repr

def row (file : File) (chunk : String × Nat) : Row where
  doc_id := file.stem
  chunk_id := file.stem ++ "_" ++ chunk.2.repr
  chunk_index := chunk.2
  text := chunk.1
  source_path := file.path
  char_count := chunk.1.length

def file_rows (host : Host) (chunk_size chunk_overlap : Int) (file : File) :
    Except LoadError (List Row) := do
  let text ← file_text host file
  let chunks ← chunk_text text chunk_size chunk_overlap
  return chunks.zipIdx.map (row file)

/-- The files that a path names: itself, or the supported files of the
directory in the order of their names. -/
def document_files (host : Host) (path : String) : Except LoadError (List File) :=
  if path = "" then .error (.path_must_be_a_non_empty_string path)
  else
    match host.entry path with
    | none => .error (.path_does_not_exist path)
    | some (.directory listing) =>
        let files := ((listing.entries.filter fun e => e.is_file && supported host e.file).map
          (·.file)).insertionSort fun a b => a.name ≤ b.name
        if files = [] then .error (.contains_no_supported_files path) else .ok files
    | some (.file file) =>
        if supported host file then .ok [file]
        else .error (.unsupported_file_type file.suffix path)

def load_documents (host : Host) (path : String) (chunk_size chunk_overlap : Int) :
    Except LoadError (List Row) := do
  let files ← document_files host path
  let rows ← files.mapM (file_rows host chunk_size chunk_overlap)
  return rows.flatten

/-! ## Chunks -/

/-- The text again: every chunk after the first without what it repeats. -/
def rejoin (chunk_overlap : Int) (chunks : List String) : String :=
  String.ofList (Windows.rejoin chunk_overlap.toNat (chunks.map String.toList))

/-- What the sizes admit, and what the chunks are worth. -/
theorem chunk_text_spec {text : String} {chunk_size chunk_overlap : Int} {chunks : List String}
    (h : chunk_text text chunk_size chunk_overlap = .ok chunks) :
    chunks ≠ [] ∧ (∀ chunk ∈ chunks, (chunk.length : Int) ≤ chunk_size) ∧
      rejoin chunk_overlap chunks = text := by
  rw [chunk_text] at h
  by_cases hsize : chunk_size ≤ 0
  · rw [if_pos hsize] at h
    cases h
  rw [if_neg hsize] at h
  by_cases hoverlap : chunk_overlap < 0 ∨ chunk_overlap ≥ chunk_size
  · rw [dif_pos hoverlap] at h
    cases h
  rw [dif_neg hoverlap] at h
  by_cases htext : text = ""
  · rw [if_pos htext] at h
    cases h
    subst htext
    refine ⟨List.cons_ne_nil _ _, fun chunk hchunk => ?_, rfl⟩
    rw [List.mem_singleton.mp hchunk]
    exact Int.le_of_lt (Int.not_le.mp hsize)
  · rw [if_neg htext] at h
    cases h
    have hlength : 0 < text.toList.length :=
      List.length_pos_iff.mpr fun hnil => htext (String.toList_eq_nil_iff.mp hnil)
    refine ⟨List.map_eq_nil_iff.not.mpr (Windows.slide_ne_nil hlength), fun chunk hchunk => ?_, ?_⟩
    · obtain ⟨window, hwindow, rfl⟩ := List.mem_map.mp hchunk
      have hle := Windows.length_le_of_mem_slide hwindow
      rw [String.length_ofList]
      omega
    · -- a window repeats what the step leaves of the one before it
      have hover : chunk_overlap.toNat =
          chunk_size.toNat - (chunk_size - chunk_overlap).toNat := by omega
      have hstep : (chunk_size - chunk_overlap).toNat ≤ chunk_size.toNat := by omega
      rw [rejoin, List.map_map, hover]
      have hid : String.toList ∘ String.ofList = id := funext fun l => String.toList_ofList
      rw [hid, List.map_id, Windows.rejoin_slide hstep hlength, List.drop_zero,
        String.ofList_toList]

/-! ## Rows -/

variable {host : Host} {chunk_size chunk_overlap : Int}

/-- The rows of one file. -/
structure Section (host : Host) (chunk_size chunk_overlap : Int) (file : File) (rows : List Row) :
    Prop where
  lossless : ∃ text, file_text host file = .ok text ∧
    (∀ r ∈ rows, (r.text.length : Int) ≤ chunk_size) ∧
    rejoin chunk_overlap (rows.map (·.text)) = text
  numbered : rows.map (·.chunk_id) = (List.range rows.length).map fun i =>
    file.stem ++ "_" ++ i.repr
  nonempty : rows ≠ []
  named : ∀ r ∈ rows, r.doc_id = file.stem ∧ r.source_path = file.path ∧
    ∃ i : Nat, r.chunk_id = r.doc_id ++ "_" ++ i.repr

theorem file_rows_section {file : File} {rows : List Row}
    (h : file_rows host chunk_size chunk_overlap file = .ok rows) :
    Section host chunk_size chunk_overlap file rows := by
  obtain ⟨text, htext, h⟩ := Checks.bind_eq_ok.mp h
  obtain ⟨chunks, hchunks, h⟩ := Checks.bind_eq_ok.mp h
  cases h
  obtain ⟨hne, hbound, hrejoin⟩ := chunk_text_spec hchunks
  have htexts : (chunks.zipIdx.map (row file)).map (·.text) = chunks := by
    rw [List.map_map]
    exact List.zipIdx_map_fst 0 chunks
  exact {
    lossless := by
      refine ⟨text, htext, fun r hr => hbound r.text ?_, htexts.symm ▸ hrejoin⟩
      have hmem : r.text ∈ (chunks.zipIdx.map (row file)).map (·.text) := List.mem_map_of_mem hr
      rwa [htexts] at hmem
    numbered := by
      have hindex : chunks.zipIdx.map Prod.snd = List.range chunks.length := by
        rw [List.zipIdx_map_snd, List.range_eq_range']
      rw [List.length_map, List.length_zipIdx, ← hindex, List.map_map, List.map_map]
      rfl
    nonempty := by simpa using hne
    named := by
      intro r hr
      obtain ⟨⟨chunk, i⟩, -, rfl⟩ := List.mem_map.mp hr
      exact ⟨rfl, rfl, i, rfl⟩ }

theorem stem_inj {s t : String} {m n : Nat} :
    s ++ "_" ++ m.repr = t ++ "_" ++ n.repr ↔ s = t ∧ m = n :=
  Decimal.numbered_inj rfl rfl

theorem Section.nodup {file : File} {rows : List Row}
    (h : Section host chunk_size chunk_overlap file rows) : (rows.map (·.chunk_id)).Nodup := by
  rw [h.numbered]
  exact List.nodup_range.map fun i j hij => (stem_inj.mp hij).2

/-- The first row of a file is numbered zero. -/
theorem Section.first {file : File} {rows : List Row}
    (h : Section host chunk_size chunk_overlap file rows) :
    [file.stem ++ "_" ++ Nat.repr 0].Sublist (rows.map (·.chunk_id)) := by
  rw [h.numbered, List.singleton_sublist]
  exact List.mem_map.mpr ⟨0, List.mem_range.mpr (List.length_pos_iff.mpr h.nonempty), rfl⟩

/-- The files of a load, one section each. -/
abbrev Sections (host : Host) (chunk_size chunk_overlap : Int) : List File → List (List Row) → Prop :=
  List.Forall₂ (Section host chunk_size chunk_overlap)

variable {files : List File} {sections : List (List Row)}

theorem Sections.mem (h : Sections host chunk_size chunk_overlap files sections) {r : Row}
    (hr : r ∈ sections.flatten) :
    ∃ file ∈ files, r.doc_id = file.stem ∧ r.source_path = file.path ∧
      ∃ i : Nat, r.chunk_id = r.doc_id ++ "_" ++ i.repr := by
  induction h with
  | nil => cases hr
  | @cons file rows files sections hfirst _ ih =>
      rw [List.flatten_cons, List.mem_append] at hr
      rcases hr with hr | hr
      · exact ⟨file, List.mem_cons_self, hfirst.named r hr⟩
      · obtain ⟨other, hother, hnamed⟩ := ih hr
        exact ⟨other, List.mem_cons_of_mem _ hother, hnamed⟩

/-- Where the paths differ, the rows with the path of a file are its section. -/
theorem Sections.own (h : Sections host chunk_size chunk_overlap files sections)
    (hpaths : (files.map (·.path)).Nodup) {file : File} (hfile : file ∈ files) :
    Section host chunk_size chunk_overlap file
      (sections.flatten.filter (·.source_path = file.path)) := by
  induction h with
  | nil => cases hfile
  | @cons first rows files sections hfirst hrest ih =>
      obtain ⟨hfresh, hpaths⟩ := List.nodup_cons.mp hpaths
      rw [List.flatten_cons, List.filter_append]
      rcases List.mem_cons.mp hfile with rfl | hfile
      · have hown : rows.filter (·.source_path = file.path) = rows :=
          List.filter_eq_self.mpr fun r hr => decide_eq_true (hfirst.named r hr).2.1
        have hother : sections.flatten.filter (·.source_path = file.path) = [] := by
          refine List.filter_eq_nil_iff.mpr fun r hr heq => ?_
          obtain ⟨other, hmem, -, hpath, -⟩ := Sections.mem hrest hr
          exact hfresh (List.mem_map.mpr ⟨other, hmem, hpath.symm.trans (of_decide_eq_true heq)⟩)
        rwa [hown, hother, List.append_nil]
      · have hother : rows.filter (·.source_path = file.path) = [] := by
          refine List.filter_eq_nil_iff.mpr fun r hr heq => hfresh ?_
          have hpath : file.path = first.path :=
            (of_decide_eq_true heq).symm.trans (hfirst.named r hr).2.1
          exact List.mem_map.mpr ⟨file, hfile, hpath⟩
        rw [hother, List.nil_append]
        exact ih hpaths hfile

/-- Every file has a row numbered zero under its stem. -/
theorem Sections.firsts (h : Sections host chunk_size chunk_overlap files sections) :
    (files.map fun file => file.stem ++ "_" ++ Nat.repr 0).Sublist
      (sections.flatten.map (·.chunk_id)) := by
  induction h with
  | nil => exact List.Sublist.refl _
  | cons hfirst _ ih =>
      rw [List.map_cons, List.flatten_cons, List.map_append]
      exact hfirst.first.append ih

theorem Sections.nodup (h : Sections host chunk_size chunk_overlap files sections)
    (hstems : (files.map (·.stem)).Nodup) : (sections.flatten.map (·.chunk_id)).Nodup := by
  induction h with
  | nil => exact List.nodup_nil
  | @cons file rows files sections hfirst hrest ih =>
      obtain ⟨hfresh, hstems⟩ := List.nodup_cons.mp hstems
      rw [List.flatten_cons, List.map_append, List.nodup_append]
      refine ⟨hfirst.nodup, ih hstems, fun id hid id' hid' heq => ?_⟩
      obtain ⟨r, hr, rfl⟩ := List.mem_map.mp hid
      obtain ⟨r', hr', rfl⟩ := List.mem_map.mp hid'
      obtain ⟨hdoc, -, i, hi⟩ := hfirst.named r hr
      obtain ⟨other, hother, hdoc', -, j, hj⟩ := Sections.mem hrest hr'
      rw [hi, hj, stem_inj, hdoc, hdoc'] at heq
      exact hfresh (List.mem_map.mpr ⟨other, hother, heq.1.symm⟩)

/-! ## The law -/

/-- The rows of every file have chunks of the size at most, and are its text
again without the overlaps. -/
def Lossless (host : Host) (chunk_size chunk_overlap : Int) (files : List File) (rows : List Row) :
    Prop :=
  ∀ file ∈ files, ∃ text, file_text host file = .ok text ∧
    (∀ r ∈ rows, r.source_path = file.path → (r.text.length : Int) ≤ chunk_size) ∧
    rejoin chunk_overlap ((rows.filter (·.source_path = file.path)).map (·.text)) = text

/-- No chunk id is given twice, and the rows of one document come from one file. -/
def Identified (rows : List Row) : Prop :=
  (rows.map (·.chunk_id)).Nodup ∧
    ∀ r ∈ rows, ∀ r' ∈ rows, r.doc_id = r'.doc_id → r.source_path = r'.source_path

theorem document_files_paths {path : String} (h : document_files host path = .ok files) :
    (files.map (·.path)).Nodup := by
  rw [document_files] at h
  by_cases hpath : path = ""
  · rw [if_pos hpath] at h
    cases h
  rw [if_neg hpath] at h
  cases hentry : host.entry path with
  | none =>
      rw [hentry] at h
      cases h
  | some entry =>
      rw [hentry] at h
      cases entry with
      | file file =>
          simp only at h
          split at h
          · cases h
            exact List.nodup_singleton _
          · cases h
      | directory listing =>
          simp only at h
          split at h
          · cases h
          · cases h
            refine (((List.perm_insertionSort _ _).map _).nodup_iff).mpr ?_
            rw [List.map_map]
            exact listing.nodup.sublist (List.filter_sublist.map _)

/-- The chunks lose nothing, whatever the sizes. The frame keeps the files
apart exactly if no two of them have the same stem. -/
theorem load_documents_law (host : Host) (path : String) (chunk_size chunk_overlap : Int)
    (rows : List Row) (h : load_documents host path chunk_size chunk_overlap = .ok rows) :
    ∃ files, document_files host path = .ok files ∧
      Lossless host chunk_size chunk_overlap files rows ∧
      (Identified rows ↔ (files.map (·.stem)).Nodup) := by
  obtain ⟨files, hfiles, h⟩ := Checks.bind_eq_ok.mp h
  obtain ⟨sections, hsections, h⟩ := Checks.bind_eq_ok.mp h
  cases h
  have hall : Sections host chunk_size chunk_overlap files sections :=
    (Checks.mapM_eq_ok.mp hsections).imp fun _ _ => file_rows_section
  have hpaths := document_files_paths hfiles
  refine ⟨files, hfiles, fun file hfile => ?_, ?_, fun hstems => ⟨hall.nodup hstems, ?_⟩⟩
  · obtain ⟨text, htext, hbound, hrejoin⟩ := (hall.own hpaths hfile).lossless
    refine ⟨text, htext, fun r hr hpath => hbound r ?_, hrejoin⟩
    exact List.mem_filter.mpr ⟨hr, decide_eq_true hpath⟩
  · rintro ⟨hnodup, -⟩
    have hfirsts : (files.map fun file => file.stem ++ "_" ++ Nat.repr 0) =
        (files.map (·.stem)).map fun stem => stem ++ "_" ++ Nat.repr 0 := by
      rw [List.map_map]
      rfl
    have hsub := hall.firsts
    rw [hfirsts] at hsub
    exact (hnodup.sublist hsub).of_map
  · intro r hr r' hr' hdoc
    obtain ⟨file, hfile, hstem, hpath, -⟩ := hall.mem hr
    obtain ⟨file', hfile', hstem', hpath', -⟩ := hall.mem hr'
    have heq : file = file' := List.inj_on_of_nodup_map hstems hfile hfile'
      (hstem.symm.trans (hdoc.trans hstem'))
    rw [hpath, hpath', heq]

/-! ## Two files in a folder -/

def text_file (name text : String) : File where
  name := name
  path := "docs/" ++ name
  read_text := .ok text
  pages := .error (.unreadable name)

def folder (first second : File) (h : first.path ≠ second.path) : Host where
  entry _ := some (.directory ⟨[⟨first, true⟩, ⟨second, true⟩], by simpa using h⟩)
  pypdf := false
  lower := id

theorem file_rows_short {host : Host} {file : File} {text : String}
    (htext : file_text host file = .ok text)
    (hsize : 0 < text.toList.length ∧ text.toList.length ≤ 10) :
    file_rows host 10 2 file = .ok [row file (text, 0)] := by
  have hne : text ≠ "" := fun heq => by simp [heq] at hsize
  have hchunks : chunk_text text 10 2 = .ok [text] := by
    rw [chunk_text, if_neg (by decide), dif_neg (by decide), if_neg hne, Windows.slide,
      if_pos hsize.1]
    simp [hsize.2, List.take_of_length_le]
  rw [file_rows, htext]
  change (do
    let chunks ← chunk_text text 10 2
    pure (chunks.zipIdx.map (row file))) = _
  rw [hchunks]
  rfl

theorem load_folder {first second : File} (h : first.path ≠ second.path)
    (hfiles : document_files (folder first second h) "docs" = .ok [first, second])
    (hfirst : file_text (folder first second h) first = .ok "b")
    (hsecond : file_text (folder first second h) second = .ok "a") :
    load_documents (folder first second h) "docs" 10 2 =
      .ok [row first ("b", 0), row second ("a", 0)] := by
  have hrows : [first, second].mapM (file_rows (folder first second h) 10 2) =
      .ok [[row first ("b", 0)], [row second ("a", 0)]] :=
    Checks.mapM_eq_ok.mpr (.cons (file_rows_short hfirst (by decide))
      (.cons (file_rows_short hsecond (by decide)) .nil))
  rw [load_documents, hfiles]
  change (do
    let rows ← [first, second].mapM (file_rows (folder first second h) 10 2)
    pure rows.flatten) = _
  rw [hrows]
  rfl

/-- Two stems. -/
theorem load_documents_law_apart :
    Identified [row (text_file "intro.md" "b") ("b", 0), row (text_file "notes.txt" "a") ("a", 0)] := by
  obtain ⟨files, hfiles, -, hlaw⟩ := load_documents_law
    (folder (text_file "intro.md" "b") (text_file "notes.txt" "a") (by decide)) "docs" 10 2 _
    (load_folder (by decide) rfl rfl rfl)
  cases hfiles
  exact hlaw.mpr (by decide)

/-- `notes.md` and `notes.txt` are one document with one chunk id. -/
theorem load_documents_mixes :
    ¬ ∀ host path chunk_size chunk_overlap rows,
      load_documents host path chunk_size chunk_overlap = .ok rows →
      ∃ files, document_files host path = .ok files ∧
        Lossless host chunk_size chunk_overlap files rows ∧ Identified rows := by
  intro hclaim
  obtain ⟨_, _, _, hnodup, -⟩ := hclaim
    (folder (text_file "notes.md" "b") (text_file "notes.txt" "a") (by decide)) "docs" 10 2 _
    (load_folder (by decide) rfl rfl rfl)
  exact absurd hnodup (by decide)

end EmergentFlow.Documents
