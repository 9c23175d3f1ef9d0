import TimingChart.Proofs.Chart.Values

/-! # Drawings that are read back

The document of a drawing gives the drawing back, shape by shape, as long as data is drawn before the
boxes of the legend and marks are drawn behind them. -/

namespace TimingChart

/-! ## Elements on lines -/

namespace Markup

open SvgReader (IsNameChar HasNames written splitAt splitAt_append_cons splitAt_of_not_mem)

/-- An element with proper names and with every tag on one line. -/
structure Element.IsTidy (e : Element) : Prop where
  tag_chars : ∀ c ∈ e.tag.toList, IsNameChar c
  names : HasNames e.attributes
  values : ∀ a ∈ e.attributes, '\n' ∉ a.2.toList
  nonempty : e.attributes ≠ []

theorem newline_not_mem_attributesText {attributes : List (String × String)}
    (hnames : HasNames attributes) (hvalues : ∀ a ∈ attributes, '\n' ∉ a.2.toList) :
    '\n' ∉ attributesText attributes := by
  intro h
  obtain ⟨⟨name, value⟩, ha, hmem⟩ := List.mem_flatMap.mp h
  have hname := SvgReader.not_mem_name (hnames _ ha) (by decide : ¬ IsNameChar '\n')
  have hvalue := newline_not_mem_escape (hvalues _ ha)
  simp [hname, hvalue] at hmem

namespace Element

variable {e : Element}

/-- The line of a tag, up to what closes it. -/
def opening (e : Element) : List Char := '<' :: e.tag.toList ++ attributesText e.attributes

theorem IsTidy.newline_not_mem_opening (he : e.IsTidy) : '\n' ∉ e.opening := by
  have htag := SvgReader.not_mem_name he.tag_chars (by decide : ¬ IsNameChar '\n')
  have hattributes := newline_not_mem_attributesText he.names he.values
  simp [opening, htag, hattributes]

theorem IsTidy.splitAt_text_of_none (he : e.IsTidy) (h : e.content = none) (rest : List Char) :
    splitAt '\n' (e.text ++ rest) = (e.opening ++ ['/', '>']) :: splitAt '\n' rest := by
  have htext : e.text ++ rest = (e.opening ++ ['/', '>']) ++ '\n' :: rest := by
    simp [text, h, opening]
  have hline : '\n' ∉ e.opening ++ ['/', '>'] := by
    simp [he.newline_not_mem_opening]
  rw [htext, splitAt_append_cons, splitAt_of_not_mem hline, List.singleton_append]

theorem IsTidy.splitAt_text_of_some (he : e.IsTidy) {content : String} (h : e.content = some content)
    (rest : List Char) :
    splitAt '\n' (e.text ++ rest) =
      (e.opening ++ ['>']) :: (splitAt '\n' (escape content.toList) ++
        ('<' :: '/' :: e.tag.toList ++ ['>']) :: splitAt '\n' rest) := by
  have htext : e.text ++ rest = (e.opening ++ ['>']) ++ '\n' :: (escape content.toList ++ '\n' ::
      (('<' :: '/' :: e.tag.toList ++ ['>']) ++ '\n' :: rest)) := by
    simp [text, h, opening]
  have hline : '\n' ∉ e.opening ++ ['>'] := by
    simp [he.newline_not_mem_opening]
  have hclosing : '\n' ∉ '<' :: '/' :: e.tag.toList ++ ['>'] := by
    simp [SvgReader.not_mem_name he.tag_chars (by decide : ¬ IsNameChar '\n')]
  rw [htext, splitAt_append_cons, splitAt_append_cons, splitAt_append_cons,
    splitAt_of_not_mem hline, splitAt_of_not_mem hclosing, List.singleton_append,
    List.singleton_append]

theorem IsTidy.tag?_opening (he : e.IsTidy) {closing : List Char} (hclosing : '"' ∉ closing) :
    SvgReader.tag? (e.opening ++ closing) = some ⟨e.tag.toList, written e.attributes⟩ := by
  have htag := SvgReader.tag?_line he.tag_chars he.nonempty he.names hclosing
  rw [opening, List.append_assoc]
  exact htag

end Element

end Markup

/-! ## Elements of shapes -/

theorem newline_not_mem_integerText (n : Int) : '\n' ∉ integerText n :=
  SvgReader.not_mem_integerText (by decide) n

theorem newline_not_mem_colorText (c : Color) : '\n' ∉ c.text.toList := by
  have hbyte : ∀ b : UInt8, '\n' ∉ hexByte b := by
    intro b hmem
    exact absurd (SvgReader.isAlphanum_of_mem_hexByte hmem) (by decide)
  simp [SvgReader.toList_colorText, hbyte]

theorem newline_not_mem_pointsText (points : List Pixel) : '\n' ∉ (pointsText points).toList := by
  rw [SvgReader.toList_pointsText]
  intro h
  obtain ⟨p, -, hmem⟩ := List.mem_flatMap.mp h
  simp [newline_not_mem_integerText] at hmem

theorem newline_not_mem_fontSize (lineHeight : Binary64) : '\n' ∉ (fontSize lineHeight).toList := by
  rw [fontSize, String.toList_ofList]
  intro hmem
  exact absurd (isPlain_of_mem_shortText hmem) (by decide)

namespace Shape

theorem tag_chars_element (shape : Shape) :
    ∀ c ∈ shape.element.tag.toList, SvgReader.IsNameChar c := by
  cases shape
  all_goals
    simp only [element]
    decide

theorem hasNames_element (shape : Shape) : SvgReader.HasNames shape.element.attributes := by
  cases shape with
  | text role position content =>
      simp only [element, SvgReader.HasNames, List.forall_mem_append, List.forall_mem_cons]
      refine ⟨by decide, ?_⟩
      split
      · simp only [List.forall_mem_cons]
        decide
      · simp
  | _ =>
      simp only [element, SvgReader.HasNames, List.forall_mem_cons]
      decide

theorem newline_not_mem_values (shape : Shape) :
    ∀ a ∈ shape.element.attributes, '\n' ∉ a.2.toList := by
  have hpixel : ∀ n, '\n' ∉ (pixelText n).toList := by
    intro n
    rw [SvgReader.toList_pixelText]
    exact newline_not_mem_integerText n
  cases shape with
  | box role corner width height =>
      simp only [element, List.forall_mem_cons, hpixel, not_false_eq_true, true_and]
      cases role <;> decide +kernel
  | meshLine start stop =>
      simp only [element, List.forall_mem_cons, hpixel, newline_not_mem_colorText,
        not_false_eq_true, true_and]
      decide
  | curve role color points =>
      simp only [element, List.forall_mem_cons, newline_not_mem_colorText,
        newline_not_mem_pointsText, not_false_eq_true, true_and]
      cases role <;> decide
  | text role position content =>
      have hsize : '\n' ∉ role.style.size.toList := by
        cases role <;> exact newline_not_mem_fontSize _
      simp only [element, List.forall_mem_append, List.forall_mem_cons, hpixel, hsize,
        newline_not_mem_colorText, not_false_eq_true, true_and]
      refine ⟨by cases role <;> decide, ?_⟩
      split
      · simp [newline_not_mem_integerText, pixelText]
      · simp

theorem isTidy_element (shape : Shape) : shape.element.IsTidy :=
  ⟨shape.tag_chars_element, shape.hasNames_element, shape.newline_not_mem_values, by
    cases shape <;> simp [element]⟩

end Shape

/-! ## Shapes from elements -/

namespace SvgReader

/-- The tag of an element as the reader finds it. -/
def Tag.ofElement (e : Markup.Element) : Tag := ⟨e.tag.toList, written e.attributes⟩

theorem Tag.text?_ofElement (e : Markup.Element) (name : String) :
    (ofElement e).text? name = e.attributes.lookup name := text?_written _ _ name

variable {t : Tag}

theorem Tag.integer?_of_text? {name : String} {n : Int} (h : t.text? name = some (pixelText n)) :
    t.integer? name = some n := by
  rw [integer?, h, Option.bind_some, integer?_pixelText]

theorem Tag.pixel?_of_text? {x y : String} {p : Pixel} (hx : t.text? x = some (pixelText p.x))
    (hy : t.text? y = some (pixelText p.y)) : t.pixel? x y = some p := by
  rw [pixel?, integer?_of_text? hx, integer?_of_text? hy]
  rfl

end SvgReader

open SvgReader (Tag)

namespace Shape

/-- Data is drawn before the legend has begun, and marks only behind that. -/
def FitsIn (inLegend : Bool) : Shape → Prop
  | curve .data _ _ => inLegend = false
  | curve .legendMark _ _ => inLegend = true
  | _ => True

/-- The boxes of the legend are its first shapes. -/
def isLegendBox : Shape → Bool
  | box role .. => role ≠ .background
  | _ => false

/-- The content that stands between the tags of a shape, as it is written. -/
def writtenContent (shape : Shape) : List Char :=
  Markup.escape ((shape.element.content.getD "").toList)

/-- The element of a shape is read as that shape. -/
theorem shape?_element {inLegend : Bool} {shape : Shape} (h : shape.FitsIn inLegend) :
    SvgReader.shape? inLegend (.ofElement shape.element) shape.writtenContent = some shape := by
  have htext := Tag.text?_ofElement shape.element
  cases shape with
  | box role corner width height =>
      generalize ht : Tag.ofElement (box role corner width height).element = t at htext ⊢
      have hname : t.name = ['r', 'e', 'c', 't'] := by simp [← ht, Tag.ofElement, element]
      have hrole : SvgReader.boxRole? t = some role := by
        apply SvgReader.boxRole?_of_style <;> simp [htext, element, List.lookup_cons]
      have hcorner : t.pixel? "x" "y" = some corner := by
        apply Tag.pixel?_of_text? <;> simp [htext, element, List.lookup_cons]
      have hwidth : t.integer? "width" = some width := by
        apply Tag.integer?_of_text?
        simp [htext, element, List.lookup_cons]
      have hheight : t.integer? "height" = some height := by
        apply Tag.integer?_of_text?
        simp [htext, element, List.lookup_cons]
      simp [SvgReader.shape?, hname, hrole, hcorner, hwidth, hheight]
  | meshLine start stop =>
      generalize ht : Tag.ofElement (meshLine start stop).element = t at htext ⊢
      have hname : t.name = ['l', 'i', 'n', 'e'] := by simp [← ht, Tag.ofElement, element]
      have hstart : t.pixel? "x1" "y1" = some start := by
        apply Tag.pixel?_of_text? <;> simp [htext, element, List.lookup_cons]
      have hstop : t.pixel? "x2" "y2" = some stop := by
        apply Tag.pixel?_of_text? <;> simp [htext, element, List.lookup_cons]
      simp [SvgReader.shape?, hname, hstart, hstop]
  | curve role color points =>
      generalize ht : Tag.ofElement (curve role color points).element = t at htext ⊢
      have hname : t.name = ['p', 'o', 'l', 'y', 'l', 'i', 'n', 'e'] := by
        simp [← ht, Tag.ofElement, element]
      have hrole : SvgReader.curveRole? t inLegend = some role := by
        apply SvgReader.curveRole?_of_style
        · simp [htext, element, List.lookup_cons]
        · intro heq
          subst heq
          exact h
        · intro heq
          subst heq
          exact h
      have hcolor : t.text? "stroke" = some color.text := by
        simp [htext, element, List.lookup_cons]
      have hpoints : t.text? "points" = some (pointsText points) := by
        simp [htext, element, List.lookup_cons]
      simp [SvgReader.shape?, hname, hrole, hcolor, hpoints, SvgReader.color?_text,
        SvgReader.points?_pointsText]
  | text role position content =>
      generalize ht : Tag.ofElement (text role position content).element = t at htext ⊢
      have hname : t.name = ['t', 'e', 'x', 't'] := by simp [← ht, Tag.ofElement, element]
      have hrole : SvgReader.textRole? t = some role := by
        apply SvgReader.textRole?_of_style
        · simp [htext, element, List.lookup_cons]
        · simp [htext, element, List.lookup_cons]
        · simp [htext, element, List.lookup_cons]
        · cases role <;> simp [htext, element, TextRole.turned, List.lookup_cons]
      have hposition : t.pixel? "x" "y" = some position := by
        apply Tag.pixel?_of_text? <;> simp [htext, element, List.lookup_cons]
      simp [SvgReader.shape?, hname, hrole, hposition, writtenContent, element,
        Markup.unescape?_escape]

end Shape

/-! ## Documents -/

namespace SvgReader

/-- The parts of a text, with the separators put back, are the text. -/
theorem exists_splitAt (separator : Char) (text : List Char) :
    ∃ first others, splitAt separator text = first :: others ∧
      first ++ others.flatMap (fun part => separator :: part) = text := by
  induction text with
  | nil => exact ⟨[], [], rfl, rfl⟩
  | cons c text ih =>
      obtain ⟨first, others, hsplit, hjoin⟩ := ih
      rw [splitAt, hsplit]
      split
      next hc => exact ⟨[], first :: others, rfl, by simp [hjoin, hc]⟩
      next => exact ⟨c :: first, others, rfl, by simp [hjoin]⟩

/-- Lines without a tag are content of the text that is open. -/
theorem shapes?_lines {inLegend : Bool} {tag : Tag} (lines rest : List (List Char))
    (hlines : ∀ line ∈ lines, '<' ∉ line) (content : List Char) :
    shapes? inLegend (some ⟨tag, some content⟩) (lines ++ rest) =
      shapes? inLegend (some ⟨tag, some (content ++ lines.flatMap fun line => '\n' :: line)⟩)
        rest := by
  induction lines generalizing content with
  | nil => simp
  | cons line lines ih =>
      obtain ⟨hline, hlines⟩ := List.forall_mem_cons.mp hlines
      have hne : line ≠ "</text>".toList := by
        intro heq
        subst heq
        exact hline (by decide)
      rw [List.cons_append, shapes?, if_neg hne]
      dsimp only
      rw [ih hlines]
      simp

theorem shapes?_content {inLegend : Bool} {tag : Tag} (content : List Char)
    (rest : List (List Char)) :
    shapes? inLegend (some ⟨tag, none⟩)
        (splitAt '\n' (Markup.escape content) ++ "</text>".toList :: rest) =
      (shape? inLegend tag (Markup.escape content)).bind fun shape =>
        (shapes? inLegend none rest).map (shape :: ·) := by
  obtain ⟨first, others, hsplit, hjoin⟩ := exists_splitAt '\n' (Markup.escape content)
  have hlines : ∀ line ∈ first :: others, '<' ∉ line := by
    intro line hline hless
    rw [← hsplit] at hline
    exact Markup.less_not_mem_escape content (mem_of_mem_splitAt hline hless)
  obtain ⟨hfirst, hothers⟩ := List.forall_mem_cons.mp hlines
  have hne : first ≠ "</text>".toList := by
    intro heq
    subst heq
    exact hfirst (by decide)
  rw [hsplit, List.cons_append, shapes?, if_neg hne]
  dsimp only
  rw [shapes?_lines others _ hothers, hjoin, shapes?, if_pos rfl, Option.getD_some]
  cases shape? inLegend tag (Markup.escape content) with
  | none => rfl
  | some shape => cases shapes? inLegend none rest <;> rfl

theorem opening_ne_closing (shape : Shape) (closing : List Char) :
    shape.element.opening ++ closing ≠ "</svg>".toList := by
  cases shape <;> simp [Markup.Element.opening, Shape.element]

theorem tag_eq_text_iff (shape : Shape) :
    shape.element.tag.toList = "text".toList ↔ shape.element.content.isSome := by
  cases shape <;> simp [Shape.element]

/-- The lines of a shape give this shape, and the boxes of the legend begin the legend. -/
theorem shapes?_element {inLegend : Bool} {shape : Shape} (h : shape.FitsIn inLegend)
    (rest : List Char) :
    shapes? inLegend none (splitAt '\n' (shape.element.text ++ rest)) =
      (shapes? (inLegend || shape.isLegendBox) none (splitAt '\n' rest)).map (shape :: ·) := by
  have htidy := shape.isTidy_element
  have hshape := Shape.shape?_element h
  have hname := tag_eq_text_iff shape
  cases hcontent : shape.element.content with
  | none =>
      rw [hcontent] at hname
      have htag : shape.element.tag.toList ≠ "text".toList := by
        rw [Ne, hname]
        exact Bool.false_ne_true
      have hempty : shape.writtenContent = [] := by
        rw [Shape.writtenContent, hcontent]
        rfl
      rw [hempty] at hshape
      rw [htidy.splitAt_text_of_none hcontent, shapes?, if_neg (opening_ne_closing shape _),
        htidy.tag?_opening (by decide)]
      simp only [Option.bind_eq_bind, Option.bind_some, if_neg htag]
      rw [show Tag.mk shape.element.tag.toList (written shape.element.attributes) =
        .ofElement shape.element from rfl, hshape, Option.map_eq_bind]
      cases shape <;> rfl
  | some content =>
      rw [hcontent] at hname
      have htag : shape.element.tag.toList = "text".toList := hname.mpr rfl
      have hwritten : shape.writtenContent = Markup.escape content.toList := by
        rw [Shape.writtenContent, hcontent]
        rfl
      have hbox : (inLegend || shape.isLegendBox) = inLegend := by
        cases shape with
        | box => cases hcontent
        | _ => exact Bool.or_false _
      rw [hwritten] at hshape
      have hclosing : '<' :: '/' :: "text".toList ++ ['>'] = "</text>".toList := by decide
      rw [htidy.splitAt_text_of_some hcontent, shapes?, if_neg (opening_ne_closing shape _),
        htidy.tag?_opening (by decide)]
      simp only [Option.bind_eq_bind, Option.bind_some, htag, if_true]
      rw [hclosing, shapes?_content, hbox]
      rw [Tag.ofElement, htag] at hshape
      rw [hshape, Option.bind_some]

end SvgReader

/-- Data is drawn before the boxes of the legend, and marks are drawn behind them. -/
def LegendLast : (inLegend : Bool) → List Shape → Prop
  | _, [] => True
  | inLegend, shape :: rest =>
    shape.FitsIn inLegend ∧ LegendLast (inLegend || shape.isLegendBox) rest

theorem shapes?_texts {inLegend : Bool} {shapes : List Shape} (h : LegendLast inLegend shapes) :
    SvgReader.shapes? inLegend none (SvgReader.splitAt '\n'
      (shapes.flatMap (fun shape => shape.element.text) ++ "</svg>\n".toList)) = some shapes := by
  induction shapes generalizing inLegend with
  | nil => cases inLegend <;> decide
  | cons shape shapes ih =>
      obtain ⟨hshape, hshapes⟩ := h
      rw [List.flatMap_cons, List.append_assoc, SvgReader.shapes?_element hshape, ih hshapes,
        Option.map_some]

theorem hasNames_size (size : Size) : SvgReader.HasNames size.attributes := by
  simp only [Size.attributes, SvgReader.HasNames, List.forall_mem_cons]
  decide

theorem newline_not_mem_size (size : Size) : ∀ a ∈ size.attributes, '\n' ∉ a.2.toList := by
  have hdigits : ∀ n : Nat, '\n' ∉ Nat.toDigits 10 n := by
    intro n hmem
    exact absurd (isDigit_of_mem_toDigits hmem) (by decide)
  simp [Size.attributes, hdigits]

/-- The document of a drawing gives the drawing back. -/
theorem ofSvg?_svg {d : Drawing} (h : LegendLast false d.shapes) :
    Drawing.ofSvg? d.svg = some d := by
  have hline : '\n' ∉ '<' :: "svg".toList ++ (Markup.attributesText d.size.attributes ++ ['>']) := by
    have hattributes := Markup.newline_not_mem_attributesText (hasNames_size d.size)
      (newline_not_mem_size d.size)
    simp [hattributes]
  have hsvg : d.svg = ('<' :: "svg".toList ++ (Markup.attributesText d.size.attributes ++ ['>'])) ++
      '\n' :: (d.shapes.flatMap (fun shape => shape.element.text) ++ "</svg>\n".toList) := by
    simp [Drawing.svg]
  have htag : SvgReader.tag?
      ('<' :: "svg".toList ++ (Markup.attributesText d.size.attributes ++ ['>'])) =
        some ⟨"svg".toList, SvgReader.written d.size.attributes⟩ :=
    SvgReader.tag?_line (by decide) (by simp [Size.attributes]) (hasNames_size d.size)
      (by decide)
  rw [Drawing.ofSvg?, hsvg, SvgReader.splitAt_append_cons,
    SvgReader.splitAt_of_not_mem hline, List.singleton_append]
  dsimp only
  rw [htag, Option.bind_some, SvgReader.size?_attributes, shapes?_texts h]
  rfl

end TimingChart
