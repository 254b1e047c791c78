import Mathlib.Logic.Basic

/-!
# Status Codes

The `EFI_STATUS` codes that the drivers return, and what is documented of `OpenProtocol` where a
driver opens a protocol for itself alone.
-/

namespace Msm8998

/-- `EFI_STATUS`; the top bit marks an error. -/
abbrev StatusCode := UInt64

def efiSuccess : StatusCode := 0
def efiInvalidParameter : StatusCode := 0x8000000000000002
def efiUnsupported : StatusCode := 0x8000000000000003
def efiNotReady : StatusCode := 0x8000000000000006
def efiDeviceError : StatusCode := 0x8000000000000007
def efiOutOfResources : StatusCode := 0x8000000000000009
def efiAlreadyStarted : StatusCode := 0x8000000000000014

/-- `EFI_ERROR`. -/
def efiError (status : StatusCode) : Bool := decide (0x8000000000000000 ≤ status)

@[simp] theorem efiError_efiSuccess : efiError efiSuccess = false := rfl
@[simp] theorem efiError_efiInvalidParameter : efiError efiInvalidParameter = true := rfl
@[simp] theorem efiError_efiUnsupported : efiError efiUnsupported = true := rfl
@[simp] theorem efiError_efiDeviceError : efiError efiDeviceError = true := rfl
@[simp] theorem efiError_efiAlreadyStarted : efiError efiAlreadyStarted = true := rfl

/-- An error is not a success. -/
theorem ne_efiSuccess_of_efiError {status : StatusCode} (h : efiError status = true) :
    status ≠ efiSuccess := by
  rintro rfl
  rw [efiError_efiSuccess] at h
  cases h

/-- What `OpenProtocol` is documented to answer a driver that asks for a protocol `BY_DRIVER`: one
that it has open in this way already is not opened again. -/
def ByDriver (isOpen : Bool) (openStatus : StatusCode) : Prop :=
  isOpen = true → openStatus = efiAlreadyStarted

/-- A driver whose `OpenProtocol` succeeds did not have the protocol open. -/
theorem ByDriver.isOpen_eq {isOpen : Bool} {openStatus : StatusCode}
    (h : ByDriver isOpen openStatus) (hok : efiError openStatus = false) : isOpen = false := by
  cases isOpen with
  | false => rfl
  | true =>
      rw [h rfl] at hok
      cases hok

end Msm8998
