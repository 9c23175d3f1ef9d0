import TimingChart.Proofs.Chart.Lines

/-! # Captions

The title of a chart is the content of one text element, and nothing else in the document depends on
it. Whatever the title holds, its written form has no tag in it and stands for just this title. -/

namespace TimingChart

/-! ## Content without tags -/

namespace Markup

/-- Text as it may stand between tags: it opens none, and each ampersand begins an entity. -/
structure IsInert (text : List Char) : Prop where
  no_tag : '<' ∉ text
  entities : ∀ before after, text = before ++ '&' :: after →
    ∃ c name, entity? c = some name ∧ name ++ [';'] <+: after

/-- The only ampersand of an entity is the first character. -/
theorem ampersand_not_mem_entity {c : Char} {name : List Char} (h : entity? c = some name) :
    '&' ∉ name ++ [';'] := by
  intro hmem
  rcases List.mem_append.mp hmem with hname | hsemicolon
  · exact absurd (isLower_of_mem_entity h _ hname) (by decide)
  · exact absurd (List.mem_singleton.mp hsemicolon) (by decide)

/-- An ampersand in the written form of one character is its first character. -/
theorem prefix_of_written {c : Char} {before rest : List Char}
    (h : (match entity? c with
      | some name => '&' :: name ++ [';']
      | none => [c]) = before ++ '&' :: rest) :
    ∃ c name, entity? c = some name ∧ rest = name ++ [';'] := by
  cases hname : entity? c with
  | none =>
      rw [hname] at h
      cases before with
      | nil =>
          obtain rfl := (List.cons.inj h).1
          cases hname
      | cons a before =>
          have htail : [] = before ++ '&' :: rest := (List.cons.inj h).2
          simp at htail
  | some name =>
      rw [hname] at h
      refine ⟨c, name, hname, ?_⟩
      cases before with
      | nil => exact (List.cons.inj h).2.symm
      | cons a before =>
          have hmem : '&' ∈ name ++ [';'] := by
            have htail : name ++ [';'] = before ++ '&' :: rest := (List.cons.inj h).2
            rw [htail]
            simp
          exact absurd hmem (ampersand_not_mem_entity hname)

theorem isInert_escape (text : List Char) : IsInert (escape text) := by
  refine ⟨less_not_mem_escape text, ?_⟩
  induction text with
  | nil =>
      intro before after h
      simp [escape] at h
  | cons c text ih =>
      intro before after h
      rw [escape_cons] at h
      rcases List.append_eq_append_iff.mp h with ⟨more, rfl, hrest⟩ | ⟨more, hfirst, hrest⟩
      · exact ih more after hrest
      · cases more with
        | nil => exact ih [] after hrest.symm
        | cons a more =>
            obtain ⟨rfl, rfl⟩ := List.cons.inj hrest
            obtain ⟨c, name, hname, rfl⟩ := prefix_of_written hfirst
            exact ⟨c, name, hname, List.prefix_append _ _⟩

/-- The written form of an element with content, from its opening tag to its closing one. -/
theorem Element.text_of_some {e : Element} {content : String} (h : e.content = some content) :
    e.text = e.opening ++ ['>', '\n'] ++ escape content.toList ++
      (['\n', '<', '/'] ++ e.tag.toList ++ ['>', '\n']) := by
  simp [text, h, opening]

end Markup

/-! ## Shapes around the caption -/

/-- A shape that is no caption. -/
def Shape.IsUntitled (shape : Shape) : Prop := shape.textOf? .caption = none

theorem Legend.isUntitled_shapes (plot : Area) (series : List Series) :
    ∀ shape ∈ Legend.shapes plot series, shape.IsUntitled :=
  Legend.forall_shapes (fun _ _ _ _ => rfl) (fun _ _ => rfl) (fun _ _ => rfl) plot series

namespace ChartData

/-- The same chart with another title. -/
def withTitle (d : ChartData) (title : String) : ChartData := { d with title }

/-- One shape of a chart holds the title, and no other shape depends on it. -/
theorem exists_shapes_withTitle (d : ChartData) (f : Frame) :
    ∃ front position others, (∀ shape ∈ front ++ others, shape.IsUntitled) ∧
      ∀ title, (d.withTitle title).shapes f =
        front ++ .text .caption position title :: others := by
  refine ⟨[f.background], ⟨20 + (f.width - 40).tdiv 2, 25⟩,
    (f.titles "" d.axisTitle).tail ++ f.mesh ++ f.yAxis ++ f.xAxis ++ f.curves d.series ++
      Legend.shapes f.plot d.series, ?_, ?_⟩
  · have htitles : ∀ shape ∈ (f.titles "" d.axisTitle).tail, shape.IsUntitled := by
      simp only [Frame.titles, List.tail_cons, List.forall_mem_cons]
      exact ⟨rfl, rfl, by simp⟩
    have hx : ∀ shape ∈ f.xAxis, shape.IsUntitled :=
      Frame.forall_axis (fun _ => rfl) fun _ _ => rfl
    have hy : ∀ shape ∈ f.yAxis, shape.IsUntitled :=
      Frame.forall_axis (fun _ => rfl) fun _ _ => rfl
    simp only [List.forall_mem_append, List.forall_mem_singleton]
    exact ⟨rfl, ⟨⟨⟨⟨htitles, f.forall_mesh fun _ _ => rfl⟩, hy⟩, hx⟩,
      f.forall_curves (fun _ _ => rfl) d.series⟩, Legend.isUntitled_shapes f.plot d.series⟩
  · intro title
    simp [withTitle, shapes, Frame.titles]

/-! ## Main result -/

/-- The tags around the caption, with the line breaks that belong to them. -/
def captionStart (position : Pixel) : List Char :=
  (Shape.text .caption position "").element.opening ++ ['>', '\n']

def captionEnd : List Char := ['\n', '<', '/', 't', 'e', 'x', 't', '>', '\n']

theorem text_caption (position : Pixel) (title : String) :
    (Shape.text .caption position title).element.text =
      captionStart position ++ Markup.escape title.toList ++ captionEnd := by
  have hopening : (Shape.text .caption position title).element.opening =
      (Shape.text .caption position "").element.opening := rfl
  have htag : (Shape.text .caption position title).element.tag.toList = ['t', 'e', 'x', 't'] := by
    rw [show (Shape.text .caption position title).element.tag = "text" from rfl]
    decide
  rw [Markup.Element.text_of_some rfl, hopening, htag, captionStart, captionEnd]
  simp only [List.append_assoc, List.cons_append, List.nil_append]

/-- The document of a drawing with one caption is that of the shapes around it. -/
theorem svg_caption (size : Size) (front others : List Shape) (position : Pixel) :
    ∃ before after, captionStart position <:+ before ∧ captionEnd <+: after ∧
      ∀ title, Drawing.svg ⟨size, front ++ .text .caption position title :: others⟩ =
        before ++ Markup.escape title.toList ++ after := by
  refine ⟨'<' :: 's' :: 'v' :: 'g' :: Markup.attributesText size.attributes ++ ['>', '\n'] ++
      front.flatMap (fun shape => shape.element.text) ++ captionStart position,
    captionEnd ++ (others.flatMap (fun shape => shape.element.text) ++
      ['<', '/', 's', 'v', 'g', '>', '\n']),
    List.suffix_append _ _, List.prefix_append _ _, ?_⟩
  intro title
  rw [Drawing.svg, List.flatMap_append, List.flatMap_cons, text_caption]
  simp only [List.append_assoc, List.cons_append]

/-- Whatever its title is, a chart has the same document but for the content of the caption. The
content has no tag in it and stands for the title, so that all other shapes are read as they are
without it. -/
theorem document_withTitle (d : ChartData) (size : Size) (document : List Char)
    (h : d.document size = .ok document) :
    ∃ before after front position others,
      captionStart position <:+ before ∧ captionEnd <+: after ∧
      (∀ shape ∈ front ++ others, shape.IsUntitled) ∧
      document = before ++ Markup.escape d.title.toList ++ after ∧
      ∀ title : String,
        (d.withTitle title).document size =
          .ok (before ++ Markup.escape title.toList ++ after) ∧
        Markup.IsInert (Markup.escape title.toList) ∧
        Markup.unescape? (Markup.escape title.toList) = some title.toList ∧
        Drawing.ofSvg? (before ++ Markup.escape title.toList ++ after) =
          some ⟨size, front ++ .text .caption position title :: others⟩ := by
  obtain ⟨frame, hframe, hsvg'⟩ := document_eq_ok_iff.mp h
  obtain ⟨front, position, others, huntitled, hshapes⟩ := d.exists_shapes_withTitle frame
  obtain ⟨before, after, hbefore, hafter, hsvg⟩ := svg_caption size front others position
  refine ⟨before, after, front, position, others, hbefore, hafter, huntitled, ?_, ?_⟩
  · rw [hsvg', ← hsvg d.title, ← hshapes d.title]
    rfl
  · intro title
    refine ⟨document_eq_ok_iff.mpr ⟨frame, hframe, ?_⟩, Markup.isInert_escape _,
      Markup.unescape?_escape _, ?_⟩
    · rw [hshapes title, hsvg title]
    · rw [← hsvg title]
      refine ofSvg?_svg ?_
      have hlast := (d.withTitle title).legendLast_shapes frame
      rwa [hshapes title] at hlast

/-- The path of the input shows in the title only. -/
theorem ofFile_eq_withTitle (input other : Path) (t : Table) (mode : Option Mode) :
    ofFile other t mode = (ofFile input t mode).withTitle ("file = " ++ other.display) := by
  cases mode <;> rfl

/-- A path that would close the caption and begin another element, if it were written as it is. -/
def hostilePath : Path := .ofString "</text><x y=\"&amp;\">.csv"

/-- The chart of one run from the file at a path. -/
def oneRunChart (input : Path) : ChartData :=
  .ofFile input (.ofList [⟨1, 2, 3, 4, 5, 6, 7, 8⟩]) (some .rows1)

theorem document_withTitle_hostilePath :
    ∃ document before after,
      (oneRunChart (.ofString "bench.csv")).document ⟨800, 400⟩ = .ok document ∧
      document = before ++ "file = bench.csv".toList ++ after ∧
      (oneRunChart hostilePath).document ⟨800, 400⟩ =
        .ok (before ++ "file = &lt;/text&gt;&lt;x y=&quot;&amp;amp;&quot;&gt;.csv".toList ++
          after) := by
  have hsome : ((oneRunChart (.ofString "bench.csv")).draw? ⟨800, 400⟩).isSome := by
    decide +kernel
  obtain ⟨drawing, hdraw⟩ := Option.isSome_iff_exists.mp hsome
  have hdocument : (oneRunChart (.ofString "bench.csv")).document ⟨800, 400⟩ =
      .ok drawing.svg := by
    rw [ChartData.document, hdraw]
  obtain ⟨before, after, _, _, _, -, -, -, hsvg, hother⟩ := document_withTitle _ _ _ hdocument
  have hplain : Markup.escape (oneRunChart (.ofString "bench.csv")).title.toList =
      "file = bench.csv".toList := by decide +kernel
  have hescaped : Markup.escape ("file = " ++ hostilePath.display).toList =
      "file = &lt;/text&gt;&lt;x y=&quot;&amp;amp;&quot;&gt;.csv".toList := by decide +kernel
  refine ⟨drawing.svg, before, after, hdocument, ?_, ?_⟩
  · rw [hsvg, hplain]
  · rw [oneRunChart, ofFile_eq_withTitle (.ofString "bench.csv") hostilePath, ← hescaped]
    exact (hother _).1

end ChartData

end TimingChart
