import AssetPack.Emit.Template

/-!
# The text of a class of images

Three templates: what every class begins with, the accessor of a plain bitmap and the accessors of
a compiled nine-patch. The generated class keeps its images as text and decodes one when it is
first asked for; a bitmap is decoded again when another target density is asked for.
-/

set_option autoImplicit false

namespace AssetPack.Emit

/-- Lines, each ended by a line feed. -/
def unlines (lines : List String) : List Char :=
  lines.flatMap fun line => line.toList ++ ['\n']

/-- The lines of the class up to its first accessor. -/
def preludeLines : List String :=
  ["",
   "import java.io.ByteArrayInputStream;",
   "",
   "import android.content.res.Resources;",
   "import android.graphics.Bitmap;",
   "import android.graphics.BitmapFactory;",
   "import android.graphics.NinePatch;",
   "import android.graphics.Rect;",
   "import android.graphics.drawable.NinePatchDrawable;",
   "import android.util.Base64;",
   "import android.util.DisplayMetrics;",
   "",
   "final class \x7b\x7bclass_name\x7d\x7d \x7b",
   "\tfinal static class NinePatchWrapper \x7b",
   "\t\tfinal Bitmap mBitmap;",
   "\t\tfinal Rect mPadding;",
   "\t\tNinePatchWrapper(Bitmap bitmap, Rect padding) \x7b",
   "\t\t\tmBitmap = bitmap;",
   "\t\t\tmPadding = padding;",
   "\t\t\x7d",
   "\t\tNinePatchDrawable newDrawable(Resources resources) \x7b",
   "\t\t\t// Padding has to be passed explicitly; the short constructor leaves it empty.",
   "\t\t\treturn new NinePatchDrawable(resources, mBitmap, mBitmap.getNinePatchChunk(), mPadding, null);",
   "\t\t\x7d",
   "\t\x7d",
   "\tprivate static Bitmap scaleAndRecycle(Bitmap bmp, int width, int height) \x7b",
   "\t\tBitmap ret = Bitmap.createScaledBitmap(bmp, width, height, true);",
   "\t\tif (ret != bmp) \x7b",
   "\t\t\tbmp.recycle();",
   "\t\t\x7d",
   "\t\treturn ret;",
   "\t\x7d",
   "\tprivate static Bitmap smoothScaleAndRecycle(Bitmap bmp, int width, int height) \x7b",
   "\t\twidth = Math.max(width, 1);",
   "\t\theight = Math.max(height, 1);",
   "\t\t// Scale to the largest power-of-two multiple of the target that is",
   "\t\t// still at most a quarter of the source, then halve back down so that",
   "\t\t// no single filtered step drops more than three quarters of the pixels.",
   "\t\tint steps = 0;",
   "\t\tint w = width;",
   "\t\tint h = height;",
   "\t\twhile (w <= Integer.MAX_VALUE / 2 && h <= Integer.MAX_VALUE / 2",
   "\t\t\t\t&& bmp.getWidth() / w >= 4 && bmp.getHeight() / h >= 4) \x7b",
   "\t\t\tw *= 2;",
   "\t\t\th *= 2;",
   "\t\t\tsteps++;",
   "\t\t\x7d",
   "\t\tfor (; steps >= 0; steps--) \x7b",
   "\t\t\tbmp = scaleAndRecycle(bmp, width << steps, height << steps);",
   "\t\t\x7d",
   "\t\treturn bmp;",
   "\t\x7d",
   "\tprivate static Bitmap makeImmutableAndRecycle(Bitmap bmp) \x7b",
   "\t\tif (!bmp.isMutable()) \x7b",
   "\t\t\treturn bmp;",
   "\t\t\x7d",
   "\t\tif (bmp.getNinePatchChunk() != null) \x7b",
   "\t\t\t// Copies drop the nine-patch chunk.",
   "\t\t\treturn bmp;",
   "\t\t\x7d",
   "\t\t// Some bitmaps (GIFs) have no config and cannot be copied.",
   "\t\tBitmap.Config config = bmp.getConfig();",
   "\t\tBitmap ret = (config == null ? null : bmp.copy(config, false));",
   "\t\tif (ret == null) \x7b",
   "\t\t\treturn bmp;",
   "\t\t\x7d",
   "\t\tif (ret != bmp) \x7b",
   "\t\t\tbmp.recycle();",
   "\t\t\x7d",
   "\t\treturn ret;",
   "\t\x7d",
   "\tprivate static Bitmap bitmapFromUrlsafeBase64(String s, int srcDensity, int targetDensity, Rect paddingOut) \x7b",
   "\t\tbyte[] a = Base64.decode(s, Base64.URL_SAFE);",
   "\t\tBitmap bmp;",
   "\t\tBitmapFactory.Options options = new BitmapFactory.Options();",
   "\t\toptions.inDither = false;",
   "\t\toptions.inPreferredConfig = Bitmap.Config.ARGB_8888;",
   "\t\tif (paddingOut == null) \x7b",
   "\t\t\tbmp = BitmapFactory.decodeByteArray(a, 0, a.length, options);",
   "\t\t\x7d else \x7b",
   "\t\t\t// Only the stream variant reports nine-patch padding.",
   "\t\t\tbmp = BitmapFactory.decodeStream(new ByteArrayInputStream(a), paddingOut, options);",
   "\t\t\x7d",
   "\t\tif (bmp == null) \x7b",
   "\t\t\treturn bmp;",
   "\t\t\x7d",
   "\t\tbmp.setDensity(srcDensity);",
   "\t\tboolean needsScale = srcDensity > 0 && targetDensity > 0 && srcDensity != targetDensity;",
   "\t\tif (needsScale) \x7b",
   "\t\t\tbmp = smoothScaleAndRecycle(bmp, bmp.getScaledWidth(targetDensity), bmp.getScaledHeight(targetDensity));",
   "\t\t\tbmp = makeImmutableAndRecycle(bmp);",
   "\t\t\tbmp.setDensity(targetDensity);",
   "\t\t\x7d",
   "\t\treturn bmp;",
   "\t\x7d",
   "\tprivate static NinePatchWrapper ninePatchWrapperFromUrlsafeBase64(String s, int srcDensity) \x7b",
   "\t\tRect padding = new Rect();",
   "\t\tBitmap bmp = bitmapFromUrlsafeBase64(s, srcDensity, 0, padding);",
   "\t\tif (bmp == null) \x7b",
   "\t\t\treturn null;",
   "\t\t\x7d",
   "\t\tbyte[] ninePatchChunk = bmp.getNinePatchChunk();",
   "\t\tif (ninePatchChunk == null || !NinePatch.isNinePatchChunk(ninePatchChunk)) \x7b",
   "\t\t\treturn null;",
   "\t\t\x7d",
   "\t\treturn new NinePatchWrapper(bmp, padding);",
   "\t\x7d"]

/-- The lines of a bitmap's accessor. -/
def bitmapLines : List String :=
  ["",
   "\tprivate static volatile Bitmap \x7b\x7bfield\x7d\x7d;",
   "\tpublic static Bitmap \x7b\x7bgetter\x7d\x7d(DisplayMetrics metrics) \x7b",
   "\t\tBitmap bmp = \x7b\x7bfield\x7d\x7d;",
   "\t\tint srcDensityDpi = \x7b\x7bdpi\x7d\x7d;",
   "\t\tint targetDensityDpi = srcDensityDpi;",
   "\t\tif (metrics != null) \x7b",
   "\t\t\ttargetDensityDpi = metrics.densityDpi;",
   "\t\t\x7d",
   "\t\tif (bmp != null && bmp.getDensity() == targetDensityDpi) \x7b",
   "\t\t\treturn bmp;",
   "\t\t\x7d",
   "\t\tbmp = bitmapFromUrlsafeBase64(\x7b\x7bliteral\x7d\x7d, srcDensityDpi, targetDensityDpi, null);",
   "\t\t\x7b\x7bfield\x7d\x7d = bmp;",
   "\t\treturn bmp;",
   "\t\x7d"]

/-- The lines of a nine-patch's accessors. -/
def ninePatchLines : List String :=
  ["",
   "\tprivate static volatile NinePatchWrapper \x7b\x7bfield\x7d\x7d;",
   "\tprivate static NinePatchWrapper \x7b\x7bgetter\x7d\x7dWrapper(DisplayMetrics metrics) \x7b",
   "\t\tNinePatchWrapper wrapper = \x7b\x7bfield\x7d\x7d;",
   "\t\tif (wrapper != null) \x7b",
   "\t\t\treturn wrapper;",
   "\t\t\x7d",
   "\t\tint srcDensityDpi = \x7b\x7bdpi\x7d\x7d;",
   "\t\twrapper = ninePatchWrapperFromUrlsafeBase64(\x7b\x7bliteral\x7d\x7d, srcDensityDpi);",
   "\t\t\x7b\x7bfield\x7d\x7d = wrapper;",
   "\t\treturn wrapper;",
   "\t\x7d",
   "\tpublic static NinePatchDrawable \x7b\x7bgetter\x7d\x7dDrawable(Resources resources) \x7b",
   "\t\tNinePatchWrapper wrapper = \x7b\x7bgetter\x7d\x7dWrapper(null);",
   "\t\treturn wrapper == null ? null : wrapper.newDrawable(resources);",
   "\t\x7d"]

/-- What a class of images begins with. Its place is `class_name`. -/
def prelude : List Char := unlines preludeLines

/-- The accessor of a bitmap. Its places are `field`, `getter`, `dpi` and `literal`. -/
def bitmapAccessor : List Char := unlines bitmapLines

/-- The accessors of a nine-patch, with the same places. -/
def ninePatchAccessor : List Char := unlines ninePatchLines

end AssetPack.Emit
