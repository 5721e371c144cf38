import IntervalSuite.Proofs.Generation.Refinement
import IntervalSuite.Proofs.Template.Laziness

/-!
# Sections on demand

The sections of a file are filled in one after the other, and the text of a section is only looked up
if what the sections before it have left asks for it.

* `sections_eq_error_iff`: which missing section is the failure of a file.
* `section_needed`: if the frame of the file is divided, the sections hold no dollar signs and no
  name of a placeholder goes on behind the name of a section, then this is a section that the frame
  has a placeholder for.
-/

namespace IntervalSuite.Generation

open Template

variable {target : Target} {token : String}

/-- One step of filling in the sections. -/
def fillSection (target : Target) (token text : String) (s : Section) : Except Error String :=
  substituteWith text s.placeholder (renderSection target token s)

/-- The sections fail with the first one that can not be rendered and that is asked for. -/
theorem sections_eq_error_iff {ss : List Section} (hnames : ∀ s ∈ ss, IsName s.placeholder.toList)
    {frame : String} {e : Error} :
    ss.foldlM (fillSection target token) frame = .error e ↔
      ∃ before s after text, ss = before ++ s :: after ∧
        before.foldlM (fillSection target token) frame = .ok text ∧
        renderSection target token s = .error e ∧
        (s.placeholder ∈ placeholders text ∨
          Shadows s.placeholder.toList (segments text.toList)) := by
  constructor
  · intro h
    obtain ⟨before, s, after, text, rfl, hbefore, hs⟩ := foldlM_eq_error h
    have hname := hnames s (by simp)
    exact ⟨before, s, after, text, rfl, hbefore, (substituteWith_eq_error_iff hname).mp hs⟩
  · rintro ⟨before, s, after, text, rfl, hbefore, hs⟩
    have hname := hnames s (by simp)
    have hfail : fillSection target token text s = .error e :=
      (substituteWith_eq_error_iff hname).mpr hs
    rw [List.foldlM_append, hbefore]
    change (fillSection target token text s >>= _) = _
    rw [hfail]
    rfl

/-- What sections without dollar signs leave of a divided frame: it is divided, and its placeholders
are some of those of the frame. -/
theorem divided_of_sections {ss : List Section} {frame text : String} (hframe : Divided frame)
    (hclosed : ∀ s ∈ ss, ∀ body, renderSection target token s = .ok body → Closed body)
    (h : ss.foldlM (fillSection target token) frame = .ok text) :
    Divided text ∧ ∀ n b, .hole n b ∈ segments text.toList → .hole n b ∈ segments frame.toList := by
  induction ss generalizing frame with
  | nil =>
    obtain rfl := pure_eq_ok_iff.mp h
    exact ⟨hframe, fun _ _ hmem => hmem⟩
  | cons s ss ih =>
    rw [List.foldlM_cons, bind_eq_ok_iff] at h
    obtain ⟨next, hnext, h⟩ := h
    obtain ⟨w, hw, rfl⟩ : ∃ w, Closed w ∧ next = substitute frame s.placeholder w := by
      cases hs : renderSection target token s with
      | ok body =>
        refine ⟨body, hclosed s List.mem_cons_self body hs, substituteWith_eq_ok hnext ?_⟩
        rintro v hv
        exact Except.ok.inj (hv.symm.trans hs)
      | error e =>
        refine ⟨"", by decide, substituteWith_eq_ok hnext ?_⟩
        rintro v hv
        cases hv.symm.trans hs
    obtain ⟨hdivided, hholes⟩ := ih (divided_substitute hframe hw)
      (fun s hs => hclosed s (List.mem_cons_of_mem _ hs)) h
    refine ⟨hdivided, fun n b hmem => ?_⟩
    have hstep := hholes n b hmem
    rw [segments_substitute_closed hframe hw] at hstep
    exact (mem_graft_chars hstep).1

/-- **A section is only needed if it is referred to**, in a divided frame without longer names. -/
theorem section_needed {ss : List Section} (hnames : ∀ s ∈ ss, IsName s.placeholder.toList)
    {frame : String} (hframe : Divided frame)
    (hlonger : ∀ s ∈ ss, ∀ n, .hole n false ∈ segments frame.toList →
      s.placeholder.toList <+: n → n = s.placeholder.toList)
    (hclosed : ∀ s ∈ ss, ∀ body, renderSection target token s = .ok body → Closed body)
    {e : Error} (h : ss.foldlM (fillSection target token) frame = .error e) :
    ∃ s ∈ ss, s.placeholder ∈ placeholders frame ∧ renderSection target token s = .error e := by
  obtain ⟨before, s, after, text, rfl, hbefore, hs, hasked⟩ := (sections_eq_error_iff hnames).mp h
  have hmem : s ∈ before ++ s :: after := by simp
  obtain ⟨hdivided, hholes⟩ := divided_of_sections hframe
    (fun s hs => hclosed s (List.mem_append_left _ hs)) hbefore
  refine ⟨s, hmem, ?_, hs⟩
  obtain hplace | hshadow := hasked
  · obtain ⟨b, hb⟩ := mem_placeholders.mp hplace
    exact mem_placeholders.mpr ⟨b, hholes _ b hb⟩
  · obtain ⟨n, hn, hpre, hne⟩ := hdivided.shadows_iff.mp hshadow
    exact absurd (hlonger s hmem n (hholes n false hn) hpre) hne

/-- A failure of the sections is the failure of the file. -/
theorem generate_of_sections_error {document : Itl.Document} {frame : String} {e : Error}
    (htoken : target.text "lang_line_comment_token" = .ok token)
    (hframe : target.text "test_testfile_seq" = .ok frame)
    (h : sections.foldlM (fillSection target token) frame = .error e) :
    generate target document = .error e := by
  change renderDocument target document >>= _ = _
  unfold renderDocument
  rw [htoken, hframe]
  change ((sections.foldlM (fillSection target token) frame >>= _) >>= _) = _
  rw [h]
  rfl

/-- A target without sections whose frame has a placeholder with a longer name than that of the
preamble. -/
def longerTarget : Target where
  spec.entries := [("lang_line_comment_token", .text "//"),
    ("test_testfile_seq", .text "$PREAMBLE_TEXT")]
  spec.nodup := by decide +kernel
  respelling := Respelling.none.apply

/-- The preamble is missing, though the frame does not refer to it. -/
theorem generate_longerTarget (document : Itl.Document) :
    "PREAMBLE" ∉ placeholders "$PREAMBLE_TEXT" ∧
      generate longerTarget document = .error (.lookup (.missing "arith_preamble")) := by
  refine ⟨by decide +kernel, generate_of_sections_error rfl rfl ?_⟩
  decide +kernel

end IntervalSuite.Generation
