import OxysOS.Graphics.Surface
import Mathlib.Data.List.Basic

/-!
# Drawing

The primitives of `graphics/draw.c` upon memory, and the packing of colours of
`graphics/framebuffer.c`.  A signed operation upon 32 bits is checked where the source
does not bound it otherwise, and a drawing gives no memory where one overflows.
-/

namespace OxysOS.Graphics

open OxysOS.Library

/-- `(uint8_t)((colour >> (index * 8U)) & 0xFFU)`, of which the processor takes the count
of the shift modulo 32. -/
def colourByte (colour : UInt32) (index : ℕ) : UInt8 :=
  (colour >>> UInt32.ofNat (index * 8)).toUInt8

def storeWord (memory : Bytes) (address : ℕ) (colour : UInt32) : Bytes := fun a ↦
  if address ≤ a ∧ a < address + 4 then colourByte colour (a - address) else memory a

def graphicsPixelAddress (surface : GraphicsSurface) (x y : ℤ) : ℕ :=
  surface.pixels + y.toNat * surface.pitch + x.toNat * surface.bytesPerPixel

def graphicsStorePixel (surface : GraphicsSurface) (memory : Bytes) (address : ℕ)
    (colour : UInt32) : Bytes :=
  if surface.wholeWords then storeWord memory address colour
  else (List.range surface.bytesPerPixel).foldl (fun memory index ↦
    Function.update memory (address + index) (colourByte colour index)) memory

def graphicsPutPixel (surface : GraphicsSurface) (memory : Bytes) (x y : ℤ) (colour : UInt32) :
    Bytes :=
  if graphicsRectangleContains surface.clip x y then
    graphicsStorePixel surface memory (graphicsPixelAddress surface x y) colour
  else memory

def graphicsPixelAt (surface : GraphicsSurface) (memory : Bytes) (x y : ℤ) : UInt32 :=
  if graphicsRectangleContains (graphicsSurfaceBounds surface) x y then
    (List.range surface.bytesPerPixel).foldl (fun colour index ↦
      colour ||| (memory (graphicsPixelAddress surface x y + index)).toUInt32 <<<
        UInt32.ofNat (index * 8)) 0
  else 0

/-- The channels of `BootFramebuffer`, of which `rgb` is the format
`BOOT_FRAMEBUFFER_RGB`. -/
structure BootFramebuffer where
  rgb : Bool
  redPosition : UInt32
  redSize : UInt32
  greenPosition : UInt32
  greenSize : UInt32
  bluePosition : UInt32
  blueSize : UInt32

def eightBitChannels : BootFramebuffer := ⟨true, 16, 8, 8, 8, 0, 8⟩

def framebufferEncode (description : BootFramebuffer) (red green blue : UInt8) : UInt32 :=
  if description.rgb then
    (red.toUInt32 >>> (8 - description.redSize)) <<< description.redPosition |||
      (green.toUInt32 >>> (8 - description.greenSize)) <<< description.greenPosition |||
      (blue.toUInt32 >>> (8 - description.blueSize)) <<< description.bluePosition
  else 0

/-- One channel of `FramebufferDecode`. -/
def framebufferChannel (description : BootFramebuffer) (pixel position size : UInt32) : UInt8 :=
  if ¬description.rgb ∨ size = 0 ∨ size > 8 then 0
  else
    let value := (pixel >>> position) &&& (1 <<< size - 1)
    (((List.range 8).map fun turn ↦ size.toNat * (turn + 1)).filter (· < 8)).foldl
      (fun widened shift ↦ widened ||| (value <<< (8 - size - UInt32.ofNat shift)).toUInt8)
      (value <<< (8 - size)).toUInt8

def graphicsBlendChannel (destination source coverage : UInt8) : UInt8 :=
  ((source.toUInt32 * coverage.toUInt32 + destination.toUInt32 * (255 - coverage.toUInt32) + 127) /
    255).toUInt8

/-- The colour of a partial coverage of `GraphicsBlendPixel`. -/
def blendColour (description : BootFramebuffer) (colour beneath : UInt32) (coverage : UInt8) :
    UInt32 :=
  let channel := fun position size ↦ graphicsBlendChannel
    (framebufferChannel description beneath position size)
    (framebufferChannel description colour position size) coverage
  framebufferEncode description (channel description.redPosition description.redSize)
    (channel description.greenPosition description.greenSize)
    (channel description.bluePosition description.blueSize)

def graphicsBlendPixel (description : BootFramebuffer) (surface : GraphicsSurface) (memory : Bytes)
    (x y : ℤ) (colour : UInt32) (coverage : UInt8) : Bytes :=
  if coverage = 0 then memory
  else if coverage = 255 then graphicsPutPixel surface memory x y colour
  else if graphicsRectangleContains surface.clip x y then
    graphicsStorePixel surface memory (graphicsPixelAddress surface x y)
      (blendColour description colour (graphicsPixelAt surface memory x y) coverage)
  else memory

def checked (values : List ℤ) : Option Unit :=
  if ∀ value ∈ values, IsInt32 value then some () else none

/-- `GraphicsBlendSurface`, of a source with its own pixels. -/
def graphicsBlendSurface (description : BootFramebuffer) (destination : GraphicsSurface)
    (memory : Bytes) (x y : ℤ) (source : GraphicsSurface) (pixels : Bytes)
    (mask : Option (ℕ → UInt8)) : Option Bytes :=
  (List.range source.height).foldlM (fun memory row ↦
    (List.range source.width).foldlM (fun memory column ↦ do
      let coverage := (mask.map fun mask ↦ mask (row * source.width + column)).getD 255
      if coverage = 0 then return memory
      checked [x + column, y + row]
      return graphicsBlendPixel description destination memory (x + column) (y + row)
        (graphicsPixelAt source pixels column row) coverage) memory) memory

def storeRow (surface : GraphicsSurface) (memory : Bytes) (address width : ℕ)
    (colour : ℕ → UInt32) : Bytes :=
  if surface.wholeWords then
    (List.range width).foldl (fun memory column ↦
      storeWord memory (address + 4 * column) (colour column)) memory
  else
    (List.range width).foldl (fun memory column ↦
      graphicsStorePixel surface memory (address + column * surface.bytesPerPixel)
        (colour column)) memory

def graphicsFillRectangle (surface : GraphicsSurface) (memory : Bytes)
    (rectangle : GraphicsRectangle) (colour : UInt32) : Bytes :=
  let area := graphicsRectangleIntersect rectangle surface.clip
  if graphicsRectangleIsEmpty area then memory
  else (List.range area.height.toNat).foldl (fun memory (row : ℕ) ↦
    storeRow surface memory (graphicsPixelAddress surface area.x (area.y + row)) area.width.toNat
      fun _ ↦ colour) memory

def graphicsClear (surface : GraphicsSurface) (memory : Bytes) (colour : UInt32) : Bytes :=
  graphicsFillRectangle surface memory surface.clip colour

def patternColour (bits : UInt8) (ink paper : UInt32) (column : ℤ) : UInt32 :=
  if bits &&& (0x80 >>> UInt8.ofNat column.toNat) ≠ 0 then ink else paper

/-- `GraphicsPatternBlock`, of a pattern that is somewhere. -/
def graphicsPatternBlock (surface : GraphicsSurface) (memory : Bytes) (x y : ℤ)
    (pattern : ℕ → UInt8) (rows : ℤ) (ink paper : UInt32) : Bytes :=
  if rows ≤ 0 then memory
  else if ¬graphicsCoordinateIsSound x ∨ ¬graphicsCoordinateIsSound y ∨
      ¬graphicsCoordinateIsSound (x + 8) ∨ ¬graphicsCoordinateIsSound (y + rows) then memory
  else
    let area := graphicsRectangleIntersect ⟨x, y, 8, rows⟩ surface.clip
    if graphicsRectangleIsEmpty area then memory
    else (List.range area.height.toNat).foldl (fun memory (row : ℕ) ↦
      storeRow surface memory (graphicsPixelAddress surface area.x (area.y + row))
        area.width.toNat fun (column : ℕ) ↦ patternColour (pattern ((area.y - y).toNat + row)) ink paper
          (area.x - x + column)) memory

/-- The value that a conversion to `int32_t` gives. -/
def toInt32 (value : ℤ) : ℤ := (value + 2147483648) % 4294967296 - 2147483648

def graphicsDrawRectangle (surface : GraphicsSurface) (memory : Bytes)
    (rectangle : GraphicsRectangle) (colour : UInt32) : Option Bytes := do
  if graphicsRectangleIsEmpty rectangle then return memory
  let memory := graphicsFillRectangle surface memory
    ⟨rectangle.x, rectangle.y, rectangle.width, 1⟩ colour
  if rectangle.height = 1 then return memory
  let memory := graphicsFillRectangle surface memory
    ⟨rectangle.x, toInt32 (rectangle.y + rectangle.height - 1), rectangle.width, 1⟩ colour
  checked [rectangle.y + 1, rectangle.height - 2]
  if rectangle.height - 2 > 0 then
    let memory := graphicsFillRectangle surface memory
      ⟨rectangle.x, rectangle.y + 1, 1, rectangle.height - 2⟩ colour
    if rectangle.width > 1 then
      return graphicsFillRectangle surface memory
        ⟨toInt32 (rectangle.x + rectangle.width - 1), rectangle.y + 1, 1, rectangle.height - 2⟩
        colour
    else return memory
  else return memory

def graphicsSpan (x y width : ℤ) : GraphicsRectangle := ⟨x, y, width, 1⟩

/-- The loop of `GraphicsFillCircle`. -/
def fillCircleFrom (surface : GraphicsSurface) (centreX centreY : ℤ) (colour : UInt32)
    (memory : Bytes) (x y error : ℤ) : Option Bytes :=
  if _h : x ≥ y then do
    checked [centreX - x, centreY + y, centreY - y, 2 * x, 2 * x + 1, centreX - y, centreY + x,
      centreY - x, 2 * y, 2 * y + 1, y + 1]
    let memory := graphicsFillRectangle surface memory
      (graphicsSpan (centreX - x) (centreY + y) (2 * x + 1)) colour
    let memory := graphicsFillRectangle surface memory
      (graphicsSpan (centreX - x) (centreY - y) (2 * x + 1)) colour
    let memory := graphicsFillRectangle surface memory
      (graphicsSpan (centreX - y) (centreY + x) (2 * y + 1)) colour
    let memory := graphicsFillRectangle surface memory
      (graphicsSpan (centreX - y) (centreY - x) (2 * y + 1)) colour
    if error < 0 then
      checked [2 * (y + 1), 2 * (y + 1) + 1, error + (2 * (y + 1) + 1)]
      fillCircleFrom surface centreX centreY colour memory x (y + 1) (error + (2 * (y + 1) + 1))
    else
      checked [x - 1, y + 1 - (x - 1), 2 * (y + 1 - (x - 1)), 2 * (y + 1 - (x - 1)) + 1,
        error + (2 * (y + 1 - (x - 1)) + 1)]
      fillCircleFrom surface centreX centreY colour memory (x - 1) (y + 1)
        (error + (2 * (y + 1 - (x - 1)) + 1))
  else some memory
  termination_by (x - y + 1).toNat
  decreasing_by all_goals omega

def graphicsFillCircle (surface : GraphicsSurface) (memory : Bytes) (centreX centreY radius : ℤ)
    (colour : UInt32) : Option Bytes :=
  if radius < 0 then some memory
  else do
    checked [1 - radius]
    fillCircleFrom surface centreX centreY colour memory radius 0 (1 - radius)

structure LinePoint where
  x : ℤ
  y : ℤ
  error : ℤ
  deriving DecidableEq

structure LineCourse where
  secondX : ℤ
  secondY : ℤ
  deltaX : ℤ
  deltaY : ℤ
  stepX : ℤ
  stepY : ℤ

def lineAcross (course : LineCourse) (point : LinePoint) : LinePoint :=
  if point.error * 2 > -course.deltaY then
    { point with error := point.error - course.deltaY, x := point.x + course.stepX }
  else point

def lineDown (course : LineCourse) (doubled : ℤ) (point : LinePoint) : LinePoint :=
  if doubled < course.deltaX then
    { point with error := point.error + course.deltaX, y := point.y + course.stepY }
  else point

def lineStep (course : LineCourse) (point : LinePoint) : LinePoint :=
  lineDown course (point.error * 2) (lineAcross course point)

/-- The loop of `GraphicsDrawLine`, for a number of turns at most. -/
def drawLineFrom (surface : GraphicsSurface) (course : LineCourse) (colour : UInt32) :
    ℕ → Bytes → LinePoint → Option Bytes
  | 0, _, _ => none
  | turns + 1, memory, point => do
      let memory :=
        if graphicsRectangleContains surface.clip point.x point.y then
          graphicsStorePixel surface memory (graphicsPixelAddress surface point.x point.y) colour
        else memory
      if point.x = course.secondX ∧ point.y = course.secondY then return memory
      let across := lineAcross course point
      let next := lineStep course point
      checked [point.error * 2, -course.deltaY, across.error, across.x, next.error, next.y]
      drawLineFrom surface course colour turns memory next

def lineCourse (firstX firstY secondX secondY : ℤ) : LineCourse where
  secondX
  secondY
  deltaX := if secondX > firstX then secondX - firstX else firstX - secondX
  deltaY := if secondY > firstY then secondY - firstY else firstY - secondY
  stepX := if firstX < secondX then 1 else -1
  stepY := if firstY < secondY then 1 else -1

/-- `GraphicsDrawLine`, whose loop has as many turns as the longer extent has pixels. -/
def graphicsDrawLine (surface : GraphicsSurface) (memory : Bytes)
    (firstX firstY secondX secondY : ℤ) (colour : UInt32) : Option Bytes :=
  if ¬graphicsCoordinateIsSound firstX ∨ ¬graphicsCoordinateIsSound firstY ∨
      ¬graphicsCoordinateIsSound secondX ∨ ¬graphicsCoordinateIsSound secondY then some memory
  else if graphicsRectangleIsEmpty surface.clip then some memory
  else do
    let course := lineCourse firstX firstY secondX secondY
    checked [secondX - firstX, firstX - secondX, secondY - firstY, firstY - secondY,
      course.deltaX - course.deltaY]
    drawLineFrom surface course colour ((max course.deltaX course.deltaY).toNat + 1) memory
      ⟨firstX, firstY, course.deltaX - course.deltaY⟩

end OxysOS.Graphics
