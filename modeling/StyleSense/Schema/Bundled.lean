import StyleSense.Schema.Basic

/-!
Contract: the schema that comes with the program.

Owns: `Schema.bundled`, frequent properties with their values, and the standard at-rules.

Does not own: schemas that a project brings along.
-/

namespace StyleSense

/-- Frequent properties. -/
def bundledProperties : List PropertyEntry := [
  { name := "align-items"
    summary := some "Aligns flex items along the cross axis of the current line of the flex container."
    browsers := some "E12,FF20,S9,C29,IE11,O16"
    status := none
    grammar := some "normal | stretch | <baseline-position> | [ <overflow-position>? <self-position> ]"
    values := [
      ⟨"baseline", some "If the flex item's inline axis is the same as the cross axis, this value is identical to 'flex-start'."⟩,
      ⟨"center", some "The flex item's margin box is centered in the cross axis within the line."⟩,
      ⟨"flex-end", some "The cross-end margin edge of the flex item is placed flush with the cross-end edge of the line."⟩,
      ⟨"flex-start", some "The cross-start margin edge of the flex item is placed flush with the cross-start edge of the line."⟩,
      ⟨"stretch", some "If the cross size property of the flex item computes to auto, and neither of the cross-axis margins are auto, the flex item is stretched."⟩] },
  { name := "animation"
    summary := some "Shorthand property combines six of the animation properties into a single property."
    browsers := some "E12,FF16,S9,C43,IE10,O30"
    status := none
    grammar := some "<single-animation>#"
    values := [
      ⟨"alternate", some "The animation cycle iterations that are odd counts are played in the normal direction, and the even counts in reverse."⟩,
      ⟨"infinite", some "Causes the animation to repeat forever."⟩,
      ⟨"none", some "No animation is performed."⟩] },
  { name := "appearance"
    summary := some "Changes the appearance of buttons and other controls to resemble native controls."
    browsers := some "E84,FF80,S15.4,C84,O70"
    status := some "e"
    grammar := some "none | auto | textfield | menulist-button | <compat-auto>"
    values := [
      ⟨"auto", none⟩,
      ⟨"none", none⟩] },
  { name := "background"
    summary := some "Shorthand property for setting most background properties at the same place in the style sheet."
    browsers := some "E12,FF1,S1,C1,IE4,O3.5"
    status := none
    grammar := some "[ <bg-layer> , ]* <final-bg-layer>"
    values := [
      ⟨"fixed", some "The background is fixed with regard to the viewport."⟩,
      ⟨"local", some "The background is fixed with regard to the element's contents."⟩,
      ⟨"none", some "A value of 'none' counts as an image layer but draws nothing."⟩,
      ⟨"scroll", some "The background is fixed with regard to the element itself."⟩] },
  { name := "background-color"
    summary := some "Sets the background color of an element."
    browsers := some "E12,FF1,S1,C1,IE4,O3.5"
    status := none
    grammar := some "<color>"
    values := [
      ⟨"transparent", some "Fully transparent."⟩,
      ⟨"currentColor", some "The value of the 'color' property."⟩] },
  { name := "border"
    summary := some "Shorthand property for setting border width, style, and color."
    browsers := some "E12,FF1,S1,C1,IE4,O3.5"
    status := none
    grammar := some "<line-width> || <line-style> || <color>"
    values := [
      ⟨"dashed", some "A series of square-ended dashes."⟩,
      ⟨"dotted", some "A series of round dots."⟩,
      ⟨"none", some "No border."⟩,
      ⟨"solid", some "A single line segment."⟩] },
  { name := "border-radius"
    summary := some "Defines the radii of the outer border edge."
    browsers := some "E12,FF4,S5,C4,IE9,O10.5"
    status := none
    grammar := some "<length-percentage>\x7b1,4\x7d [ / <length-percentage>\x7b1,4\x7d ]?"
    values := [] },
  { name := "box-sizing"
    summary := some "Specifies the behavior of the 'width' and 'height' properties."
    browsers := some "E12,FF29,S5.1,C10,IE8,O7"
    status := none
    grammar := some "content-box | border-box"
    values := [
      ⟨"border-box", some "The specified width and height include the padding and border."⟩,
      ⟨"content-box", some "Behavior of width and height as specified by CSS2.1."⟩] },
  { name := "color"
    summary := some "Sets the color of an element's text"
    browsers := some "E12,FF1,S1,C1,IE3,O3.5"
    status := none
    grammar := some "<color>"
    values := [
      ⟨"currentColor", some "The value of the 'color' property of the parent."⟩,
      ⟨"inherit", none⟩] },
  { name := "cursor"
    summary := some "Allows control over cursor appearance in an element"
    browsers := some "E12,FF1,S1.2,C1,IE4,O7"
    status := none
    grammar := none
    values := [
      ⟨"auto", some "The UA determines the cursor to display based on the current context."⟩,
      ⟨"default", some "The platform-dependent default cursor. Often rendered as an arrow."⟩,
      ⟨"not-allowed", some "Indicates that the requested action will not be carried out."⟩,
      ⟨"pointer", some "The cursor is a pointer that indicates a link."⟩,
      ⟨"text", some "Indicates text that may be selected."⟩] },
  { name := "display"
    summary := some "In combination with 'float' and 'position', determines the type of box or boxes that are generated for an element."
    browsers := some "E12,FF1,S1,C1,IE4,O7"
    status := none
    grammar := some "[ <display-outside> || <display-inside> ] | <display-listitem> | <display-internal> | <display-box> | <display-legacy>"
    values := [
      ⟨"block", some "The element generates a block-level box"⟩,
      ⟨"flex", some "The element generates a principal flex container box and establishes a flex formatting context."⟩,
      ⟨"grid", some "The element generates a principal grid container box, and establishes a grid formatting context."⟩,
      ⟨"inline", some "The element generates an inline-level box."⟩,
      ⟨"inline-block", some "A block box, which itself is flowed as a single inline box."⟩,
      ⟨"none", some "The element and its descendants generates no boxes."⟩] },
  { name := "flex-direction"
    summary := some "Specifies how flex items are placed in the flex container."
    browsers := some "E12,FF81,S9,C29,IE11,O16"
    status := none
    grammar := some "row | row-reverse | column | column-reverse"
    values := [
      ⟨"column", some "The flex container's main axis has the same orientation as the block axis of the current writing mode."⟩,
      ⟨"column-reverse", none⟩,
      ⟨"row", some "The flex container's main axis has the same orientation as the inline axis of the current writing mode."⟩,
      ⟨"row-reverse", none⟩] },
  { name := "font-family"
    summary := some "Specifies a prioritized list of font family names or generic family names."
    browsers := some "E12,FF1,S1,C1,IE3,O3.5"
    status := none
    grammar := some "<family-name>"
    values := [
      ⟨"monospace", none⟩,
      ⟨"sans-serif", none⟩,
      ⟨"serif", none⟩] },
  { name := "font-size"
    summary := some "Indicates the desired height of glyphs from the font."
    browsers := some "E12,FF1,S1,C1,IE5.5,O7"
    status := none
    grammar := some "<absolute-size> | <relative-size> | <length-percentage>"
    values := [
      ⟨"large", none⟩,
      ⟨"larger", none⟩,
      ⟨"medium", none⟩,
      ⟨"small", none⟩,
      ⟨"smaller", none⟩] },
  { name := "font-weight"
    summary := some "Specifies weight of glyphs in the font, their degree of blackness or stroke thickness."
    browsers := some "E12,FF1,S1,C2,IE3,O3.5"
    status := none
    grammar := some "<font-weight-absolute>\x7b1,2\x7d"
    values := [
      ⟨"bold", some "Same as 700"⟩,
      ⟨"bolder", some "Specifies the weight of the face bolder than the inherited value."⟩,
      ⟨"lighter", some "Specifies the weight of the face lighter than the inherited value."⟩,
      ⟨"normal", some "Same as 400"⟩] },
  { name := "height"
    summary := some "Specifies the height of the content area, padding area or border area of certain boxes."
    browsers := some "E12,FF1,S1,C1,IE4,O7"
    status := none
    grammar := some "<viewport-length>\x7b1,2\x7d"
    values := [
      ⟨"auto", some "The height depends on the values of other properties."⟩,
      ⟨"fit-content", none⟩,
      ⟨"max-content", none⟩,
      ⟨"min-content", none⟩] },
  { name := "justify-content"
    summary := some "Aligns flex items along the main axis of the current line of the flex container."
    browsers := some "E12,FF20,S9,C29,IE11,O12.1"
    status := none
    grammar := some "normal | <content-distribution> | <overflow-position>? [ <content-position> | left | right ]"
    values := [
      ⟨"center", some "Flex items are packed toward the center of the line."⟩,
      ⟨"flex-end", some "Flex items are packed toward the end of the line."⟩,
      ⟨"flex-start", some "Flex items are packed toward the start of the line."⟩,
      ⟨"space-around", some "Flex items are evenly distributed in the line, with half-size spaces on either end."⟩,
      ⟨"space-between", some "Flex items are evenly distributed in the line."⟩] },
  { name := "margin"
    summary := some "Shorthand property to set values for the thickness of the margin area."
    browsers := some "E12,FF1,S1,C1,IE3,O3.5"
    status := none
    grammar := some "[ <length> | <percentage> | auto ]\x7b1,4\x7d"
    values := [
      ⟨"auto", none⟩] },
  { name := "opacity"
    summary := some "Opacity of an element's text, where 1 is opaque and 0 is entirely transparent."
    browsers := some "E12,FF1,S2,C1,IE9,O9"
    status := none
    grammar := some "<alpha-value>"
    values := [] },
  { name := "overflow"
    summary := some "Shorthand for setting 'overflow-x' and 'overflow-y'."
    browsers := some "E12,FF1,S1,C1,IE4,O7"
    status := none
    grammar := some "[ visible | hidden | clip | scroll | auto ]\x7b1,2\x7d"
    values := [
      ⟨"auto", some "The behavior of the 'auto' value is UA-dependent."⟩,
      ⟨"hidden", some "Content is clipped and no scrolling mechanism should be provided."⟩,
      ⟨"scroll", some "Content is clipped and if the user agent uses a scrolling mechanism, it should be displayed."⟩,
      ⟨"visible", some "Content is not clipped."⟩] },
  { name := "padding"
    summary := some "Shorthand property to set values for the thickness of the padding area."
    browsers := some "E12,FF1,S1,C1,IE4,O3.5"
    status := none
    grammar := some "[ <length> | <percentage> ]\x7b1,4\x7d"
    values := [] },
  { name := "position"
    summary := some "The position CSS property sets how an element is positioned in a document."
    browsers := some "E12,FF1,S1,C1,IE4,O4"
    status := none
    grammar := some "static | relative | absolute | sticky | fixed"
    values := [
      ⟨"absolute", some "The box's position is specified with the 'top', 'right', 'bottom', and 'left' properties."⟩,
      ⟨"fixed", some "The box's position is calculated according to the 'absolute' model."⟩,
      ⟨"relative", some "The box's position is calculated according to the normal flow."⟩,
      ⟨"static", some "The box is a normal box, laid out according to the normal flow."⟩,
      ⟨"sticky", some "The box's position is calculated according to the normal flow, then offset relative to its scrolling ancestor."⟩] },
  { name := "text-align"
    summary := some "Describes how inline contents of a block are horizontally aligned if the contents do not completely fill the line box."
    browsers := some "E12,FF1,S1,C1,IE3,O3.5"
    status := none
    grammar := some "start | end | left | right | center | justify | match-parent"
    values := [
      ⟨"center", some "The inline contents are centered within the line box."⟩,
      ⟨"justify", some "The text is justified according to the method specified by the 'text-justify' property."⟩,
      ⟨"left", some "The inline contents are aligned to the left edge of the line box."⟩,
      ⟨"right", some "The inline contents are aligned to the right edge of the line box."⟩] },
  { name := "user-zoom"
    summary := some "Specifies whether the user can zoom the document."
    browsers := none
    status := some "o"
    grammar := none
    values := [
      ⟨"fixed", none⟩,
      ⟨"zoom", none⟩] },
  { name := "width"
    summary := some "Specifies the width of the content area, padding area or border area of certain boxes."
    browsers := some "E12,FF1,S1,C1,IE4,O3.5"
    status := none
    grammar := some "<viewport-length>\x7b1,2\x7d"
    values := [
      ⟨"auto", some "The width depends on the values of other properties."⟩,
      ⟨"fit-content", none⟩,
      ⟨"max-content", none⟩,
      ⟨"min-content", none⟩] },
  { name := "zoom"
    summary := some "Non-standard. Specifies the magnification scale of the object."
    browsers := some "E12,S3.1,C1,IE5.5,O15"
    status := some "n"
    grammar := none
    values := [
      ⟨"normal", none⟩] },
  { name := "z-index"
    summary := some "For a positioned box, the 'z-index' property specifies the stack level of the box in the current stacking context."
    browsers := some "E12,FF1,S1,C1,IE4,O4"
    status := none
    grammar := some "auto | <integer>"
    values := [
      ⟨"auto", some "The stack level of the generated box in the current stacking context is 0."⟩] }]

/-- Standard at-rules. -/
def bundledDirectives : List DirectiveEntry := [
  { name := "@charset"
    summary := some "Defines character set of the document."
    browsers := some "E12,FF1.5,S4,C2,IE5.5,O9" },
  { name := "@font-face"
    summary := some "Allows for linking to fonts that are automatically activated when needed."
    browsers := some "E12,FF3.5,S3.1,C1,IE4,O10" },
  { name := "@import"
    summary := some "Includes content of another file."
    browsers := some "E12,FF1,S1,C1,IE5.5,O3.5" },
  { name := "@keyframes"
    summary := some "Defines set of animation key frames."
    browsers := some "E12,FF16,S9,C43,IE10,O30" },
  { name := "@media"
    summary := some "Defines a stylesheet for a particular media type."
    browsers := some "E12,FF1,S3,C1,IE6,O9.2" },
  { name := "@namespace"
    summary := some "Declares a prefix and associates it with a namespace name."
    browsers := some "E12,FF1,S1,C1,IE9,O8" },
  { name := "@page"
    summary := some "Directive defines various page parameters."
    browsers := some "E12,FF19,S13.1,C2,IE8,O6" },
  { name := "@supports"
    summary := some "A conditional group rule whose condition tests whether the user agent supports CSS property:value pairs."
    browsers := some "E12,FF22,S9,C28,O12.1" }]

/-- The schema that comes with the program. -/
def Schema.bundled : Schema :=
  ⟨bundledProperties, bundledDirectives⟩

end StyleSense
