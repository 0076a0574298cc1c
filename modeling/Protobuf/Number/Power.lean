/-! Powers of natural numbers and integers.  The powers in definitions are those that are computed;
where algebra is imported to reason about them, its power of monoids does not take their place.
-/

attribute [instance (20000)] instPowNat
attribute [default_instance 20000] instPowNat
