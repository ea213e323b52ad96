import Mathlib.Data.Nat.Notation
import Mathlib.Logic.Function.Basic

/-! # The lists of the FreeRTOS kernel

`list.c` with the macros of `list.h`, over a memory that has one map for each field of the
structures. A list item is named by the task that owns it, so `pvOwner` has no map. -/

namespace RealTime.FreeRtos

/-- `configUSE_16_BIT_TICKS` is 0. -/
abbrev PortTickType := BitVec 32

def portMAX_DELAY : PortTickType := 0xffffffff

/-- An `xListItem *`: to an item, or to the end marker of a list. -/
inductive Pointer (L I : Type) where
  | item (i : I)
  | xListEnd (l : L)
deriving DecidableEq, Repr

/-- An end marker is an `xMiniListItem`, with the first three fields only. -/
structure Memory (L I : Type) where
  xItemValue : Pointer L I → PortTickType
  pxNext : Pointer L I → Pointer L I
  pxPrevious : Pointer L I → Pointer L I
  pvContainer : I → Option L
  uxNumberOfItems : L → ℕ
  pxIndex : L → Pointer L I

variable {L I : Type} [DecidableEq L] [DecidableEq I]

namespace Memory

def setValue (m : Memory L I) (p : Pointer L I) (value : PortTickType) : Memory L I :=
  { m with xItemValue := Function.update m.xItemValue p value }

def setNext (m : Memory L I) (p q : Pointer L I) : Memory L I :=
  { m with pxNext := Function.update m.pxNext p q }

def setPrevious (m : Memory L I) (p q : Pointer L I) : Memory L I :=
  { m with pxPrevious := Function.update m.pxPrevious p q }

def setContainer (m : Memory L I) (i : I) (container : Option L) : Memory L I :=
  { m with pvContainer := Function.update m.pvContainer i container }

def setNumberOfItems (m : Memory L I) (l : L) (number : ℕ) : Memory L I :=
  { m with uxNumberOfItems := Function.update m.uxNumberOfItems l number }

def setIndex (m : Memory L I) (l : L) (p : Pointer L I) : Memory L I :=
  { m with pxIndex := Function.update m.pxIndex l p }

end Memory

/-! ## `list.c` -/

def vListInitialise (m : Memory L I) (pxList : L) : Memory L I :=
  let m := m.setIndex pxList (.xListEnd pxList)
  let m := m.setValue (.xListEnd pxList) portMAX_DELAY
  let m := m.setNext (.xListEnd pxList) (.xListEnd pxList)
  let m := m.setPrevious (.xListEnd pxList) (.xListEnd pxList)
  m.setNumberOfItems pxList 0

def vListInitialiseItem (m : Memory L I) (pxItem : I) : Memory L I := m.setContainer pxItem none

def vListInsertEnd (m : Memory L I) (pxList : L) (pxNewListItem : I) : Memory L I :=
  let pxIndex := m.pxIndex pxList
  let m := m.setNext (.item pxNewListItem) (m.pxNext pxIndex)
  let m := m.setPrevious (.item pxNewListItem) (m.pxIndex pxList)
  let m := m.setPrevious (m.pxNext pxIndex) (.item pxNewListItem)
  let m := m.setNext pxIndex (.item pxNewListItem)
  let m := m.setIndex pxList (.item pxNewListItem)
  let m := m.setContainer pxNewListItem (some pxList)
  m.setNumberOfItems pxList (m.uxNumberOfItems pxList + 1)

/-- The loop of `vListInsert` from an iterator on. -/
def insertionPoint (m : Memory L I) (xValueOfInsertion : PortTickType) :
    ℕ → Pointer L I → Option (Pointer L I)
  | 0, _ => none
  | fuel + 1, pxIterator =>
    if m.xItemValue (m.pxNext pxIterator) ≤ xValueOfInsertion then
      insertionPoint m xValueOfInsertion fuel (m.pxNext pxIterator)
    else some pxIterator

/-- The loop has one round for each item that it passes. -/
def vListInsert (m : Memory L I) (pxList : L) (pxNewListItem : I) : Option (Memory L I) := do
  let xValueOfInsertion := m.xItemValue (.item pxNewListItem)
  let pxIterator ←
    if xValueOfInsertion = portMAX_DELAY then some (m.pxPrevious (.xListEnd pxList))
    else insertionPoint m xValueOfInsertion (m.uxNumberOfItems pxList + 1) (.xListEnd pxList)
  let m := m.setNext (.item pxNewListItem) (m.pxNext pxIterator)
  let m := m.setPrevious (m.pxNext (.item pxNewListItem)) (.item pxNewListItem)
  let m := m.setPrevious (.item pxNewListItem) pxIterator
  let m := m.setNext pxIterator (.item pxNewListItem)
  let m := m.setContainer pxNewListItem (some pxList)
  return m.setNumberOfItems pxList (m.uxNumberOfItems pxList + 1)

/-- Fails where the source goes through a NULL container. -/
def vListRemove (m : Memory L I) (pxItemToRemove : I) : Option (Memory L I) := do
  let m := m.setPrevious (m.pxNext (.item pxItemToRemove)) (m.pxPrevious (.item pxItemToRemove))
  let m := m.setNext (m.pxPrevious (.item pxItemToRemove)) (m.pxNext (.item pxItemToRemove))
  let pxList ← m.pvContainer pxItemToRemove
  let m :=
    if m.pxIndex pxList = .item pxItemToRemove then
      m.setIndex pxList (m.pxPrevious (.item pxItemToRemove))
    else m
  let m := m.setContainer pxItemToRemove none
  return m.setNumberOfItems pxList (m.uxNumberOfItems pxList - 1)

/-! ## The macros of `list.h` -/

def listSetListItemValue (m : Memory L I) (pxListItem : I) (xValue : PortTickType) : Memory L I :=
  m.setValue (.item pxListItem) xValue

def listGetListItemValue (m : Memory L I) (pxListItem : I) : PortTickType :=
  m.xItemValue (.item pxListItem)

def listCurrentListLength (m : Memory L I) (pxList : L) : ℕ := m.uxNumberOfItems pxList

def listListIsEmpty (m : Memory L I) (pxList : L) : Bool := m.uxNumberOfItems pxList = 0

def listIsContainedWithin (m : Memory L I) (pxList : L) (pxListItem : I) : Bool :=
  m.pvContainer pxListItem = some pxList

/-- The owner behind a pointer. An end marker has no such field. -/
def owner : Pointer L I → Option I
  | .item i => some i
  | .xListEnd _ => none

def listGetOwnerOfNextEntry (m : Memory L I) (pxList : L) : Option (I × Memory L I) := do
  let m := m.setIndex pxList (m.pxNext (m.pxIndex pxList))
  let m :=
    if m.pxIndex pxList = .xListEnd pxList then m.setIndex pxList (m.pxNext (m.pxIndex pxList))
    else m
  let pxTCB ← owner (m.pxIndex pxList)
  return (pxTCB, m)

def listGetOwnerOfHeadEntry (m : Memory L I) (pxList : L) : Option I :=
  owner (m.pxNext (.xListEnd pxList))

end RealTime.FreeRtos
